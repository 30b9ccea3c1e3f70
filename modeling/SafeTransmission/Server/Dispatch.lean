import SafeTransmission.Pool.Arguments
import SafeTransmission.Pool.Calls
import SafeTransmission.Server.Epoll

/-!
# Tasks and events of the server

`initepoll` makes one call of `threadpool_add` for each event, one after the other.  The
pool keeps the order, so the task with number `k` is the one for the `k`-th event, and it
is started once.  But the descriptor on which it works is what the common object holds
when it looks, and from the eleventh task on the pool frees the object.

Every event is served on its own descriptor exactly if no task looks behind an event
for another descriptor, the object is not used behind the call that frees it, and no call
finds anything else in its slot (`serves_iff`).

## Strategy

* `Dispatching` relates the calls of `threadpool_add` to the events.  Every step keeps it that is
  undisturbed (`keeps_step`, from one lemma for each function).
* A step that is disturbed is undefined itself, or leaves a task with the descriptor of another
  event in hand (`Dispatching.undisturbed`).
* So the condition and the behaviour agree at each step from a state with the invariant
  (`behaves_iff`), and along whole runs.
-/

namespace SafeTransmission

open Outcome

/-! ## What is to hold -/

namespace WorkingPhase

/-- The descriptor that the task has read. -/
def fd? : WorkingPhase → Option ℕ
  | receiving fd | sending fd => some fd
  | _ => none

/-- `recvdata` has returned. -/
def hasReceived : WorkingPhase → Bool
  | called | receiving _ => false
  | _ => true

end WorkingPhase

/-- The task of the event works on the descriptor of the event. -/
structure ClientEvent.Own (event : ClientEvent) : Prop where
  fd : ∀ fd, event.phase.fd? = some fd → fd = event.fd
  /-- Its request was received once. -/
  reads : event.reads = if event.phase.hasReceived then [event.fd] else []
  /-- It is answered at most once, to where the request came from. -/
  replies : event.replies = [] ∨ event.phase = .returned ∧ event.replies = event.reads

namespace Epoll

/-- The last event is not in the queue yet. -/
def isQueuing (s : Epoll) : Bool :=
  match s.dispatch with
  | .handling => false
  | .stored => true
  | .adding p => !decide (s.pool.calls[p]?.map AddCall.phase = some .returned)

/-- Every event is served by its own task. -/
structure Serves (s : Epoll) : Prop where
  tasks : ∀ task ∈ s.pool.added, task = processTask
  /-- There is a task for each event. -/
  queued : s.events.length = s.pool.added.length + if s.isQueuing then 1 else 0
  /-- Nothing is lost, duplicated or out of order. -/
  order : s.pool.dequeued ++ s.pool.queue.contents = s.pool.added
  /-- A task that was taken from the queue has been started once, or will be by one worker. -/
  numbers : (s.pool.workers.filterMap ThreadPhase.pending ++ s.pool.started).Perm
    (List.range s.pool.dequeued.length)
  /-- A task that has finished has served its event. -/
  finished : ∀ k ∈ s.pool.finished, ∃ event, s.events[k]? = some event ∧ event.phase = .returned
  own : ∀ event ∈ s.events, event.Own

/-- The step is defined, and every event is served by its own task. -/
def Behaves (s : Epoll) (e : EpollEvent) : Prop :=
  (∀ kind, s.step e ≠ fault kind) ∧ ∀ s', s.step e = ok s' → s'.Serves

end Epoll

/-- The step reads or writes the object. -/
def EpollEvent.usesObject : EpollEvent → Bool
  | wait _ | take | readFd _ | readFdAgain _ => true
  | _ => false

/-- The worker whose task reads `ep->fd`. -/
def EpollEvent.reader : EpollEvent → Option ℕ
  | readFd w | readFdAgain w => some w
  | _ => none

namespace Epoll

/-- No call has found the object in a slot: there were at most as many calls as slots, and
it was not in the memory before. -/
structure Intact (taskQueue : Vector Task 10) (s : Epoll) : Prop where
  length_le : s.pool.added.length ≤ 10
  fresh : ∀ task ∈ taskQueue.toList.take s.pool.added.length, task.arg ≠ some ep

/-- The object is there when it is used, and when a task looks into it, the last event is
one for the same descriptor.  A call that puts a task into a slot finds nothing in it, or the object
for the first time. -/
structure Undisturbed (taskQueue : Vector Task 10) (s : Epoll) (e : EpollEvent) : Prop where
  intact : e.usesObject = true → s.step e ≠ disabled → s.Intact taskQueue
  slot : ∀ {e' pool task old}, e = .pool e' → s.pool.Enqueues task e' → s.pool.step e' = ok pool →
    (Threadpool.history taskQueue.toList s.pool)[s.pool.added.length]? = some old →
    old.arg = none ∨ old.arg = some ep ∧ s.Intact taskQueue
  last : ∀ w k event, e.reader = some w → s.step e ≠ disabled → s.served w = ok (k, event) →
    (s.events.map ClientEvent.fd).getLast? = some event.fd

/-! ## The invariant -/

variable {s s' : Epoll} {e : EpollEvent} {taskQueue : Vector Task 10}

/-- The calls of `initepoll`. -/
def CallsInTurn (s : Epoll) : Prop :=
  match s.dispatch with
  | .handling | .stored => Threadpool.Settled s.pool.calls s.pool.added
  | .adding p => Threadpool.InTurn s.pool.calls s.pool.added ∧ s.pool.calls.length = p + 1

/-- The server between its steps. -/
structure Dispatching (taskQueue : Vector Task 10) (s : Epoll) : Prop where
  arguments : Threadpool.Arguments taskQueue.toList s.pool
  uncalled : s.pool.destroy = .uncalled
  slots : s.pool.minThrNum ≤ s.pool.threads.length
  tasks : ∀ call ∈ s.pool.calls, call.task = processTask
  calls : s.CallsInTurn
  events : s.events.length = s.pool.calls.length + if s.dispatch = .stored then 1 else 0
  last : ∀ fd, (s.events.map ClientEvent.fd).getLast? = some fd → fd = s.fd
  finished : ∀ k ∈ s.pool.finished, ∃ event, s.events[k]? = some event ∧ event.phase = .returned
  own : ∀ event ∈ s.events, event.Own

theorem dispatching_initepoll (lfd fd : ℕ) (taskQueue : Vector Task 10) (waitExitThrNum : ℤ)
    (findsTerminated : Bool) :
    Dispatching taskQueue (initepoll lfd fd taskQueue waitExitThrNum findsTerminated) where
  arguments := Threadpool.arguments_create _ _ _ _ _
  uncalled := rfl
  slots := by simp [initepoll, Threadpool.threadpoolCreate]
  tasks := by simp [initepoll, Threadpool.threadpoolCreate]
  calls := ⟨by simp [initepoll, Threadpool.threadpoolCreate], rfl⟩
  events := rfl
  last := by simp [initepoll]
  finished := by simp [initepoll, Threadpool.threadpoolCreate]
  own := by simp [initepoll]

namespace Dispatching

theorem settled (h : Dispatching taskQueue s)
    (hdispatch : s.dispatch = .handling ∨ s.dispatch = .stored) :
    Threadpool.Settled s.pool.calls s.pool.added := by
  have hcalls := h.calls
  unfold CallsInTurn at hcalls
  rcases hdispatch with hdispatch | hdispatch
  · rw [hdispatch] at hcalls
    exact hcalls
  · rw [hdispatch] at hcalls
    exact hcalls

theorem adding (h : Dispatching taskQueue s) {p : ℕ} (hdispatch : s.dispatch = .adding p) :
    Threadpool.InTurn s.pool.calls s.pool.added ∧ s.pool.calls.length = p + 1 := by
  have hcalls := h.calls
  unfold CallsInTurn at hcalls
  rw [hdispatch] at hcalls
  exact hcalls

theorem inTurn (h : Dispatching taskQueue s) : Threadpool.InTurn s.pool.calls s.pool.added := by
  cases hdispatch : s.dispatch with
  | handling => exact .settled _ _ (h.settled (Or.inl hdispatch))
  | stored => exact .settled _ _ (h.settled (Or.inr hdispatch))
  | adding p => exact (h.adding hdispatch).1

theorem added_eq (h : Dispatching taskQueue s) : ∀ task ∈ s.pool.added, task = processTask := by
  intro task hmem
  obtain ⟨call, hcall, rfl⟩ := h.inTurn.mem_added hmem
  exact h.tasks call hcall

theorem queued (h : Dispatching taskQueue s) :
    s.events.length = s.pool.added.length + if s.isQueuing then 1 else 0 := by
  rw [h.events]
  unfold isQueuing
  cases hdispatch : s.dispatch with
  | handling =>
      rw [(h.settled (Or.inl hdispatch)).added, List.length_map]
      rfl
  | stored =>
      rw [(h.settled (Or.inr hdispatch)).added, List.length_map]
      rfl
  | adding p =>
      obtain ⟨hturn, hlength⟩ := h.adding hdispatch
      rw [if_neg (by simp), Nat.add_zero, hturn.length_eq hlength]
      by_cases hreturned : s.pool.calls[p]?.map AddCall.phase = some .returned
      · simp [hreturned]
      · simp [hreturned]

theorem serves (h : Dispatching taskQueue s) : s.Serves where
  tasks := h.added_eq
  queued := h.queued
  order := h.arguments.running.isFifo.order
  numbers := h.arguments.running.handed.numbers
  finished := h.finished
  own := h.own

/-- The object is freed exactly if a call found it in a slot. -/
theorem intact_iff (h : Dispatching taskQueue s) : s.Intact taskQueue ↔ ep ∉ s.pool.frees := by
  rw [h.arguments.mem_frees]
  constructor
  · rintro hintact ⟨i, hlt, task, hi, harg⟩
    have hslot : i < taskQueue.toList.length := by
      rw [Vector.length_toList]
      exact hlt.trans_le hintact.length_le
    rw [Threadpool.history, List.getElem?_append_left hslot] at hi
    have hmem : task ∈ taskQueue.toList.take s.pool.added.length := by
      refine List.mem_of_getElem? (i := i) ?_
      rw [List.getElem?_take, if_pos hlt]
      exact hi
    exact hintact.fresh task hmem harg
  · intro hfree
    refine ⟨?_, ?_⟩
    · by_contra hmany
      -- the eleventh call finds the object of the first one
      have hfirst : (Threadpool.history taskQueue.toList s.pool)[10]? = s.pool.added[0]? := by
        rw [Threadpool.history, List.getElem?_append_right (by simp), Vector.length_toList]
      have hlt : 0 < s.pool.added.length := by omega
      rw [List.getElem?_eq_getElem hlt] at hfirst
      apply hfree
      refine ⟨10, by omega, s.pool.added[0], hfirst, ?_⟩
      rw [h.added_eq _ (List.getElem_mem hlt)]
      rfl
    · intro task hmem harg
      obtain ⟨i, hi⟩ := List.getElem?_of_mem hmem
      rw [List.getElem?_take] at hi
      split at hi
      · rename_i hlt
        exact hfree ⟨i, hlt, task, getElem?_append_of_some hi _, harg⟩
      · cases hi

end Dispatching

/-! ## Steps of the pool -/

theorem served_eq_ok {w k : ℕ} {event : ClientEvent} (h : s.served w = ok (k, event)) :
    s.events[k]? = some event := by
  unfold served at h
  split at h
  · split at h
    · rename_i hevent
      cases h
      exact hevent
    · cases h
  · cases h

theorem served_of_running {w k : ℕ} {task : Task} {event : ClientEvent}
    (hw : s.pool.workers[w]? = some (.running k task)) (hevent : s.events[k]? = some event) :
    s.served w = ok (k, event) := by
  rw [served, hw]
  dsimp only
  rw [hevent]

theorem ne_of_allows {e : PoolEvent} (h : s.allows e = true) :
    e.byDestroy = false ∧ ∀ task, e ≠ .call task := by
  cases e with
  | destroy | shutDownInside | call => cases h
  | _ => simp [PoolEvent.byDestroy]

theorem returned_of_allows {w k : ℕ} {task : Task} (h : s.allows (.finish w) = true)
    (hw : s.pool.workers[w]? = some (.running k task)) :
    ∃ event, s.events[k]? = some event ∧ event.phase = .returned := by
  cases hevent : s.events[k]? with
  | none => simp [allows, served, hw, hevent] at h
  | some event =>
      rw [allows, served_of_running hw hevent] at h
      exact ⟨event, rfl, of_decide_eq_true h⟩

theorem Dispatching.poolStep (h : Dispatching taskQueue s) {e : PoolEvent} {pool : Threadpool}
    (hallows : s.allows e = true) (hstep : s.pool.step e = ok pool) :
    Dispatching taskQueue { s with pool := pool } := by
  obtain ⟨hdestroy, hcall⟩ := ne_of_allows hallows
  have hact := (Threadpool.acts_of_step hstep).1
  have hlength := Threadpool.length_calls_of_acts hact hcall
  refine ⟨h.arguments.acts hact hdestroy, ?_, Threadpool.slots_of_acts hact h.slots,
    Threadpool.task_of_acts h.tasks hact hcall, ?_, ?_, h.last, ?_, h.own⟩
  · change pool.destroy = .uncalled
    rw [Threadpool.destroy_eq_of_acts hact hdestroy, h.uncalled]
  · unfold CallsInTurn
    cases hdispatch : s.dispatch with
    | handling => exact (h.settled (Or.inl hdispatch)).acts hact hcall
    | stored => exact (h.settled (Or.inr hdispatch)).acts hact hcall
    | adding p =>
        obtain ⟨hturn, hcalls⟩ := h.adding hdispatch
        exact ⟨hturn.acts hact hcall, hlength.trans hcalls⟩
  · change s.events.length = pool.calls.length + _
    rw [hlength]
    exact h.events
  · intro k hk
    change k ∈ pool.finished at hk
    rcases Threadpool.finished_of_acts hact with hsame | ⟨w, j, task, rfl, hw, hmore⟩
    · rw [hsame] at hk
      exact h.finished k hk
    · rw [hmore] at hk
      rcases List.mem_append.mp hk with hk | hk
      · exact h.finished k hk
      · rw [List.mem_singleton.mp hk]
        exact returned_of_allows (s := s) hallows hw

theorem Dispatching.pool_ne_fault (h : Dispatching taskQueue s) {e : PoolEvent}
    (he : e.byDestroy = false) (kind : Fault) : s.pool.step e ≠ fault kind := by
  apply Threadpool.step_ne_fault h.arguments.running
  · rw [Vector.length_toList]
    decide
  · exact h.slots
  · rw [h.uncalled]
    decide
  · exact he

/-! ## Steps of `working` -/

theorem Dispatching.setEvent (h : Dispatching taskQueue s) {k : ℕ} {event event' : ClientEvent}
    (hevent : s.events[k]? = some event) (hphase : event.phase ≠ .returned)
    (hfd : event'.fd = event.fd) (hown : event'.Own) : Dispatching taskQueue (s.setEvent k event') := by
  refine ⟨h.arguments, h.uncalled, h.slots, h.tasks, h.calls, ?_, ?_, ?_, ?_⟩
  · change (s.events.set k event').length = _
    rw [List.length_set]
    exact h.events
  · change ∀ fd, ((s.events.set k event').map ClientEvent.fd).getLast? = some fd → fd = s.fd
    rw [map_set_of_eq hevent hfd]
    exact h.last
  · intro j hj
    obtain ⟨old, hold, hreturned⟩ := h.finished j hj
    refine ⟨old, ?_, hreturned⟩
    change (s.events.set k event')[j]? = some old
    rw [getElem?_set_of_some hevent, if_neg, hold]
    rintro rfl
    cases hevent.symm.trans hold
    exact hphase hreturned
  · exact forall_mem_set h.own hown k

/-! ## One lemma for each function -/

/-- The outcome is defined, and the state that it gives meets the invariant. -/
def Keeps (taskQueue : Vector Task 10) : Outcome Epoll → Prop
  | ok s => Dispatching taskQueue s
  | err _ => True
  | fault _ => False

theorem keeps_require {p : Prop} [Decidable p] {next : Unit → Outcome Epoll}
    (h : p → Keeps taskQueue (next ())) : Keeps taskQueue (require p >>= next) := by
  by_cases hp : p
  · rw [require_bind_of hp]
    exact h hp
  · rw [require_bind_of_not hp]
    trivial

theorem keeps_served {w : ℕ} {next : ℕ × ClientEvent → Outcome Epoll}
    (h : ∀ k event, s.served w = ok (k, event) → Keeps taskQueue (next (k, event))) :
    Keeps taskQueue (s.served w >>= next) := by
  unfold served at h ⊢
  split
  · rename_i k task hw
    rw [hw] at h
    dsimp only at h
    cases hevent : s.events[k]? with
    | none => trivial
    | some event =>
        rw [hevent] at h
        exact h k event rfl
  · trivial

theorem access_bind_of {α : Type} (hfree : ep ∉ s.pool.frees) (next : Unit → Outcome α) :
    (s.access >>= next) = next () := by
  rw [access, if_neg hfree, ok_bind]

theorem access_bind_of_freed {α : Type} (hfreed : ep ∈ s.pool.frees) (next : Unit → Outcome α) :
    (s.access >>= next) = fault .useAfterFree := by
  rw [access, if_pos hfreed, fault_bind]

theorem Dispatching.keeps_wait (h : Dispatching taskQueue s) (hfree : ep ∉ s.pool.frees)
    (fds : List ℕ) : Keeps taskQueue (s.wait fds) := by
  refine keeps_require fun _ => ?_
  rw [access_bind_of hfree]
  exact { h with }

theorem Dispatching.keeps_take (h : Dispatching taskQueue s) (hfree : ep ∉ s.pool.frees) :
    Keeps taskQueue s.take := by
  apply keeps_require
  intro hdispatch
  have hcalls := h.settled (Or.inl hdispatch)
  have hevents := h.events
  rw [hdispatch] at hevents
  cases hready : s.ready with
  | nil => trivial
  | cons fd rest =>
      dsimp only
      rw [access_bind_of hfree]
      split
      · exact { h with }
      · refine ⟨h.arguments, h.uncalled, h.slots, h.tasks, hcalls, ?_, ?_, ?_, ?_⟩
        · rw [List.length_append, hevents]
          rfl
        · intro last hlast
          rw [List.map_append, List.map_singleton, List.getLast?_concat] at hlast
          exact (Option.some.inj hlast).symm
        · intro k hk
          obtain ⟨event, hevent, hreturned⟩ := h.finished k hk
          exact ⟨event, getElem?_append_of_some hevent _, hreturned⟩
        · apply forall_mem_concat h.own
          exact ⟨by simp [WorkingPhase.fd?], rfl, Or.inl rfl⟩

theorem step_call {s s' : Threadpool} {task : Task} (h : s.step (.call task) = ok s') :
    s' = { s with calls := s.calls ++ [⟨task, .entering⟩] } := by
  obtain ⟨s₁, hcall, h⟩ := bind_eq_ok.mp h
  obtain ⟨-, hcall⟩ := require_bind_eq_ok.mp hcall
  cases hcall
  split at h
  · cases h
  · cases h
    rfl

theorem Dispatching.keeps_add (h : Dispatching taskQueue s) : Keeps taskQueue s.add := by
  apply keeps_require
  intro hdispatch
  have hcalls := h.settled (Or.inr hdispatch)
  have hevents := h.events
  rw [hdispatch] at hevents
  cases hstep : s.pool.step (.call processTask) with
  | err code => trivial
  | fault kind => exact h.pool_ne_fault rfl kind hstep
  | ok pool =>
      have hact := (Threadpool.acts_of_step hstep).1
      obtain rfl := step_call hstep
      refine ⟨h.arguments.acts hact rfl, h.uncalled, h.slots,
        forall_mem_concat h.tasks rfl, ⟨?_, ?_⟩, ?_, h.last, h.finished, h.own⟩
      · exact .inCall _ _ _ hcalls (by simp)
      · rw [List.length_append, List.length_singleton]
      · change s.events.length = (s.pool.calls ++ [_]).length + 0
        rw [hevents, List.length_append, List.length_singleton, if_pos rfl]

theorem Dispatching.keeps_back (h : Dispatching taskQueue s) : Keeps taskQueue s.back := by
  have hevents := h.events
  unfold back
  cases hdispatch : s.dispatch with
  | handling | stored => trivial
  | adding p =>
      rw [hdispatch] at hevents
      obtain ⟨hturn, hlength⟩ := h.adding hdispatch
      apply keeps_require
      intro hreturned
      have hsettled := hturn.settled_of_last hlength hreturned
      exact ⟨h.arguments, h.uncalled, h.slots, h.tasks, hsettled, hevents, h.last, h.finished, h.own⟩

theorem free_bind_of {α : Type} (hfree : ep ∉ s.pool.frees) (next : Unit → Outcome α) :
    (s.free ep >>= next) = next () := by
  rw [free, if_neg (by simp), if_neg hfree, ok_bind]

theorem free_ne_ok {arg : ℕ} (h : arg ≠ ep ∨ ep ∈ s.pool.frees) :
    ∃ kind, s.free arg = fault kind := by
  unfold free
  split
  · exact ⟨_, rfl⟩
  · rename_i hsame
    rw [if_pos (h.resolve_left hsame)]
    exact ⟨_, rfl⟩

theorem poolStep_of_none {e : PoolEvent} {pool : Threadpool} (hallows : s.allows e = true)
    (hstep : s.pool.step e = ok pool) (hnone : pool.frees[s.pool.frees.length]? = none) :
    s.poolStep e = ok { s with pool := pool } := by
  simp only [poolStep, require_bind_of hallows, hstep, ok_bind, hnone]

theorem poolStep_of_some {e : PoolEvent} {pool : Threadpool} {arg : ℕ} (hallows : s.allows e = true)
    (hstep : s.pool.step e = ok pool) (hsome : pool.frees[s.pool.frees.length]? = some arg) :
    s.poolStep e = s.free arg >>= fun _ => ok { s with pool := pool } := by
  simp only [poolStep, require_bind_of hallows, hstep, ok_bind, hsome]

theorem freed_eq (frees : List ℕ) (arg : Option ℕ) : (frees ++ arg.toList)[frees.length]? = arg := by
  cases arg <;> simp

theorem Dispatching.keeps_poolStep (h : Dispatching taskQueue s) {e : PoolEvent}
    (hundisturbed : Undisturbed taskQueue s (.pool e)) :
    Keeps taskQueue (s.poolStep e) := by
  by_cases hallows : s.allows e = true
  · cases hstep : s.pool.step e with
    | err code =>
        simp only [Epoll.poolStep, require_bind_of hallows, hstep, err_bind]
        trivial
    | fault kind => exact absurd hstep (h.pool_ne_fault (ne_of_allows hallows).1 kind)
    | ok pool =>
        have hkept := h.poolStep hallows hstep
        have hact := (Threadpool.acts_of_step hstep).1
        rcases Threadpool.frees_of_acts hact with hsame | ⟨task, old, henqueues, hslot, hmore⟩
        · rw [poolStep_of_none hallows hstep (by simp [hsame])]
          exact hkept
        · have harg : pool.frees[s.pool.frees.length]? = old.arg := by rw [hmore, freed_eq]
          have hold := h.arguments.slot henqueues hslot
          rcases hundisturbed.slot rfl henqueues hstep hold with hnone | ⟨hsome, hintact⟩
          · rw [poolStep_of_none hallows hstep (harg.trans hnone)]
            exact hkept
          · rw [poolStep_of_some hallows hstep (harg.trans hsome),
              free_bind_of (h.intact_iff.mp hintact)]
            exact hkept
  · rw [Epoll.poolStep, require_bind_of_not hallows]
    trivial

theorem replies_eq_nil {event : ClientEvent} (h : event.Own) (hphase : event.phase ≠ .returned) :
    event.replies = [] :=
  h.replies.resolve_right fun hreturned => hphase hreturned.1

/-- What the two functions that read `ep->fd` have in common. -/
structure Loads (before : WorkingPhase) (after : ℕ → WorkingPhase) : Prop where
  before_ne : before ≠ .returned
  fd? : ∀ fd, (after fd).fd? = some fd
  hasReceived : ∀ fd, (after fd).hasReceived = before.hasReceived

theorem loads_called : Loads .called .receiving :=
  ⟨by simp, fun _ => rfl, fun _ => rfl⟩

theorem loads_received : Loads .received .sending :=
  ⟨by simp, fun _ => rfl, fun _ => rfl⟩

theorem Loads.own {before : WorkingPhase} {after : ℕ → WorkingPhase} (h : Loads before after)
    {event : ClientEvent} (hown : event.Own) (hphase : event.phase = before) :
    ClientEvent.Own { event with phase := after event.fd } where
  fd fd hfd := Option.some.inj (hfd.symm.trans (h.fd? event.fd))
  reads := by
    change event.reads = if (after event.fd).hasReceived = true then [event.fd] else []
    rw [h.hasReceived, ← hphase]
    exact hown.reads
  replies := by
    have hnil : event.replies = [] := replies_eq_nil hown (by rw [hphase]; exact h.before_ne)
    exact Or.inl hnil

/-- The task reads the descriptor of its own event if that is what the object holds. -/
theorem Dispatching.keeps_loadFd (h : Dispatching taskQueue s) (hfree : ep ∉ s.pool.frees) {w : ℕ}
    {before : WorkingPhase} {after : ℕ → WorkingPhase} (hloads : Loads before after)
    (hlast : ∀ k event, s.served w = ok (k, event) →
      (s.events.map ClientEvent.fd).getLast? = some event.fd) :
    Keeps taskQueue (s.loadFd w before after) := by
  apply keeps_served
  intro k event hserved
  apply keeps_require
  intro hphase
  rw [access_bind_of hfree, ← h.last event.fd (hlast k event hserved)]
  have hevent := served_eq_ok hserved
  have hown := h.own event (List.mem_of_getElem? hevent)
  exact h.setEvent hevent (by rw [hphase]; exact hloads.before_ne) rfl (hloads.own hown hphase)

theorem Dispatching.keeps_recvdata (h : Dispatching taskQueue s) (w : ℕ) (received : Received) :
    Keeps taskQueue (s.recvdata w received) := by
  apply keeps_served
  intro k event hserved
  have hevent := served_eq_ok hserved
  have hown := h.own event (List.mem_of_getElem? hevent)
  dsimp only
  cases hphase : event.phase with
  | receiving fd =>
      have hnot : event.phase ≠ .returned := by simp [hphase]
      have hreplies : event.replies = [] := replies_eq_nil hown hnot
      have hreads : event.reads = [] := by
        rw [hown.reads, hphase]
        rfl
      obtain rfl : fd = event.fd := hown.fd fd (by rw [hphase]; rfl)
      cases received with
      | closed =>
          refine h.setEvent hevent hnot rfl ⟨by simp [WorkingPhase.fd?], ?_, Or.inl hreplies⟩
          rw [hreads]
          rfl
      | blank =>
          refine h.setEvent hevent hnot rfl ⟨by simp [WorkingPhase.fd?], ?_, Or.inr ⟨rfl, ?_⟩⟩
          · rw [hreads]
            rfl
          · rw [hreads, hreplies]
      | request =>
          refine h.setEvent hevent hnot rfl ⟨by simp [WorkingPhase.fd?], ?_, Or.inl hreplies⟩
          rw [hreads]
          rfl
  | _ => trivial

theorem Dispatching.keeps_senddata (h : Dispatching taskQueue s) (w : ℕ) :
    Keeps taskQueue (s.senddata w) := by
  apply keeps_served
  intro k event hserved
  have hevent := served_eq_ok hserved
  have hown := h.own event (List.mem_of_getElem? hevent)
  dsimp only
  cases hphase : event.phase with
  | sending fd =>
      have hnot : event.phase ≠ .returned := by simp [hphase]
      have hreplies : event.replies = [] := replies_eq_nil hown hnot
      have hreads : event.reads = [event.fd] := by
        rw [hown.reads, hphase]
        rfl
      obtain rfl : fd = event.fd := hown.fd fd (by rw [hphase]; rfl)
      refine h.setEvent hevent hnot rfl ⟨by simp [WorkingPhase.fd?], ?_, Or.inr ⟨rfl, ?_⟩⟩
      · rw [hreads]
        rfl
      · rw [hreads, hreplies]
        rfl
  | _ => trivial

/-! ## All steps -/

theorem Dispatching.keeps_step (h : Dispatching taskQueue s) (hundisturbed : Undisturbed taskQueue s e) :
    Keeps taskQueue (s.step e) := by
  by_cases hdisabled : s.step e = disabled
  · rw [hdisabled]
    trivial
  have hfree : e.usesObject = true → ep ∉ s.pool.frees := fun huses =>
    h.intact_iff.mp (hundisturbed.intact huses hdisabled)
  cases e with
  | wait fds => exact h.keeps_wait (hfree rfl) fds
  | take => exact h.keeps_take (hfree rfl)
  | add => exact h.keeps_add
  | back => exact h.keeps_back
  | pool e => exact h.keeps_poolStep hundisturbed
  | readFd w =>
      exact h.keeps_loadFd (hfree rfl) loads_called fun k event hserved =>
        hundisturbed.last w k event rfl hdisabled hserved
  | recvdata w received => exact h.keeps_recvdata w received
  | readFdAgain w =>
      exact h.keeps_loadFd (hfree rfl) loads_received fun k event hserved =>
        hundisturbed.last w k event rfl hdisabled hserved
  | senddata w => exact h.keeps_senddata w

theorem loadFd_eq {w k : ℕ} {event : ClientEvent} (hserved : s.served w = ok (k, event))
    (before : WorkingPhase) (after : ℕ → WorkingPhase) :
    s.loadFd w before after = (do
      require (event.phase = before)
      s.access
      ok (s.setEvent k { event with phase := after s.fd })) := by
  rw [loadFd, hserved, ok_bind]

theorem served_eq (s : Epoll) (w : ℕ) :
    s.served w = disabled ∨ ∃ k event, s.served w = ok (k, event) := by
  unfold served
  split
  · split
    · exact Or.inr ⟨_, _, rfl⟩
    · exact Or.inl rfl
  · exact Or.inl rfl

theorem require_access_of_freed (hfreed : ep ∈ s.pool.frees) (p : Prop) [Decidable p]
    (next : Unit → Outcome Epoll) :
    (do require p; s.access >>= next) = disabled ∨
      (do require p; s.access >>= next) = fault .useAfterFree := by
  by_cases hp : p
  · rw [require_bind_of hp, access_bind_of_freed hfreed]
    exact Or.inr rfl
  · rw [require_bind_of_not hp]
    exact Or.inl rfl

theorem loadFd_of_freed (hfreed : ep ∈ s.pool.frees) (w : ℕ) (before : WorkingPhase)
    (after : ℕ → WorkingPhase) :
    s.loadFd w before after = disabled ∨ s.loadFd w before after = fault .useAfterFree := by
  rcases s.served_eq w with hserved | ⟨k, event, hserved⟩
  · rw [loadFd, hserved]
    exact Or.inl rfl
  · rw [loadFd_eq hserved]
    exact require_access_of_freed hfreed _ _

/-- A step that uses the object behind the call that freed it. -/
theorem step_of_freed (huses : e.usesObject = true) (hfreed : ep ∈ s.pool.frees) :
    s.step e = disabled ∨ s.step e = fault .useAfterFree := by
  cases e with
  | wait fds => exact require_access_of_freed hfreed _ _
  | take =>
      change s.take = disabled ∨ s.take = fault .useAfterFree
      unfold take
      cases hready : s.ready with
      | nil =>
          by_cases hdispatch : s.dispatch = .handling
          · rw [require_bind_of hdispatch]
            exact Or.inl rfl
          · rw [require_bind_of_not hdispatch]
            exact Or.inl rfl
      | cons fd rest => exact require_access_of_freed hfreed _ _
  | readFd w => exact loadFd_of_freed hfreed w _ _
  | readFdAgain w => exact loadFd_of_freed hfreed w _ _
  | _ => cases huses

/-- A task that looks into the object finds the descriptor of the last event. -/
theorem Dispatching.getLast?_eq (h : Dispatching taskQueue s) {k : ℕ} {event : ClientEvent}
    (hevent : s.events[k]? = some event) : (s.events.map ClientEvent.fd).getLast? = some s.fd := by
  cases hlast : (s.events.map ClientEvent.fd).getLast? with
  | none =>
      rw [List.getLast?_eq_none_iff, List.map_eq_nil_iff] at hlast
      simp [hlast] at hevent
  | some fd => rw [h.last fd hlast]

theorem allows_of_enqueues {e : PoolEvent} {task : Task} (h : s.pool.Enqueues task e) :
    s.allows e = true := by
  cases e with
  | add | goOn => rfl
  | _ => exact h.elim

/-- What a call finds in its slot, if it may be freed. -/
theorem Dispatching.slot_of_behaves (h : Dispatching taskQueue s) {e : PoolEvent} {pool : Threadpool}
    {task old : Task} (hbehaves : s.Behaves (.pool e)) (henqueues : s.pool.Enqueues task e)
    (hstep : s.pool.step e = ok pool)
    (hold : (Threadpool.history taskQueue.toList s.pool)[s.pool.added.length]? = some old) :
    old.arg = none ∨ old.arg = some ep ∧ s.Intact taskQueue := by
  obtain ⟨p, found, workers, hslot, -, hpool⟩ := Threadpool.eq_of_enqueues henqueues hstep
  cases hold.symm.trans (h.arguments.slot henqueues hslot)
  cases harg : old.arg with
  | none => exact Or.inl rfl
  | some arg =>
      right
      have hfreed : pool.frees[s.pool.frees.length]? = some arg := by rw [hpool, freed_eq, harg]
      have heq := poolStep_of_some (allows_of_enqueues henqueues) hstep hfreed
      by_contra hnot
      obtain ⟨kind, hkind⟩ : ∃ kind, s.free arg = fault kind := by
        apply free_ne_ok
        by_contra hgood
        push Not at hgood
        exact hnot ⟨congrArg some hgood.1, h.intact_iff.mpr hgood.2⟩
      rw [hkind, fault_bind] at heq
      exact hbehaves.1 kind heq

theorem Dispatching.undisturbed (h : Dispatching taskQueue s) (hbehaves : s.Behaves e) :
    Undisturbed taskQueue s e := by
  have hfree : e.usesObject = true → s.step e ≠ disabled → ep ∉ s.pool.frees := by
    intro huses htaken hfreed
    rcases step_of_freed huses hfreed with hstep | hstep
    · exact htaken hstep
    · exact hbehaves.1 _ hstep
  refine ⟨fun huses htaken => h.intact_iff.mpr (hfree huses htaken),
    fun he henqueues hstep hold => h.slot_of_behaves (he ▸ hbehaves) henqueues hstep hold, ?_⟩
  have hload : ∀ {w k event before after}, Loads before after → s.step e = s.loadFd w before after →
      ep ∉ s.pool.frees → s.step e ≠ disabled → s.served w = ok (k, event) →
      (s.events.map ClientEvent.fd).getLast? = some event.fd := by
    intro w k event before after hloads heq hfree htaken hserved
    have hevent := served_eq_ok hserved
    rw [h.getLast?_eq hevent]
    rw [loadFd_eq hserved] at heq
    by_cases hphase : event.phase = before
    · rw [require_bind_of hphase, access_bind_of hfree] at heq
      -- the descriptor that the task has in hand behind the step
      have hown := (hbehaves.2 _ heq).own { event with phase := after s.fd }
        (List.mem_set (List.getElem?_eq_some_iff.mp hevent).1 _)
      rw [hown.fd s.fd (hloads.fd? s.fd)]
    · rw [require_bind_of_not hphase] at heq
      exact absurd heq htaken
  intro w k event hreader htaken hserved
  cases e with
  | readFd v =>
      cases hreader
      exact hload loads_called rfl (hfree rfl htaken) htaken hserved
  | readFdAgain v =>
      cases hreader
      exact hload loads_received rfl (hfree rfl htaken) htaken hserved
  | _ => cases hreader

theorem Dispatching.behaves_iff (h : Dispatching taskQueue s) :
    s.Behaves e ↔ Undisturbed taskQueue s e := by
  refine ⟨h.undisturbed, fun hundisturbed => ?_⟩
  have hkeeps := h.keeps_step hundisturbed
  constructor
  · intro kind hfault
    rw [hfault] at hkeeps
    exact hkeeps
  · intro s' hstep
    rw [hstep] at hkeeps
    exact Dispatching.serves hkeeps

/-- In every run, each event is served by its own task, on its own descriptor, and
nothing undefined happens, exactly if no task is disturbed by a later event. -/
theorem serves_iff (lfd fd : ℕ) (taskQueue : Vector Task 10) (waitExitThrNum : ℤ)
    (findsTerminated : Bool) (es : List EpollEvent) :
    EachStep step Behaves es (initepoll lfd fd taskQueue waitExitThrNum findsTerminated) ↔
      EachStep step (Undisturbed taskQueue) es
        (initepoll lfd fd taskQueue waitExitThrNum findsTerminated) := by
  have hiff : ∀ s e, Dispatching taskQueue s → True → (s.Behaves e ↔ Undisturbed taskQueue s e) :=
    fun s e h _ => h.behaves_iff
  have hkeep : ∀ s e s', Dispatching taskQueue s → True → Undisturbed taskQueue s e →
      s.step e = ok s' → Dispatching taskQueue s' := by
    intro s e s' h _ hundisturbed hstep
    have hkeeps := h.keeps_step hundisturbed
    rw [hstep] at hkeeps
    exact hkeeps
  exact eachStep_iff (Dispatching taskQueue) hiff hkeep (fun _ _ => trivial)
    (dispatching_initepoll _ _ _ _ _)

/-- A worker receives a request on descriptor 5, and there is an event on descriptor 6 before
it answers. -/
def answeredElsewhere : List EpollEvent :=
  List.replicate 4 (.pool .create) ++ [.wait [5], .take, .add, .pool (.add 0 none), .back,
    .pool (.enter 0), .pool (.startWorking 0), .readFd 0, .recvdata 0 .request, .wait [6], .take,
    .readFdAgain 0]

/-- The answer goes to another client. -/
theorem not_behaves_answeredElsewhere :
    ¬EachStep step Behaves (answeredElsewhere ++ [.senddata 0])
      (initepoll 3 0 (Vector.replicate 10 ⟨0, none⟩) 0 true) := by
  intro hbehaves
  have hreaches : reaches step (answeredElsewhere ++ [.senddata 0])
      (initepoll 3 0 (Vector.replicate 10 ⟨0, none⟩) 0 true)
      (fun s => s.events[0]? = some ⟨5, .returned, [5], [6]⟩) = true := by decide +kernel
  obtain ⟨s', hrun, hevent⟩ := exists_of_reaches hreaches
  have hserves : s'.Serves :=
    inv_of_eachStep Serves (fun s e s' _ hbehaves hstep => hbehaves.2 s' hstep)
      (dispatching_initepoll _ _ _ _ _).serves hbehaves hrun
  have hreplies := (hserves.own _ (List.mem_of_getElem? (of_decide_eq_true hevent))).replies
  simp at hreplies

end Epoll

end SafeTransmission
