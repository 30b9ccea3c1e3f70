import SafeTransmission.Pool.Steps

/-!
# The queue of the thread pool

The queue is a ring that holds its elements in order (`fifo`): each task that was added is handed to
one worker, in the order of the calls, and is started at most once.  This is so until the pool is
shut down.

A call of `threadpool_add` that finds the pool shut down gives the lock back and goes on as if
nothing had happened.  It puts its task into the ring without the lock, and if the ring is full over
a task that waits there.  And a call that has found room before `shutdown` is stored puts its task
into the ring behind the store.  As long as no call comes to its test once `shutdown` is set, and
none that has found room is in its critical section then, the calls do nothing to a pool that is
shut down (`rejects`).

## Strategy

* `InOrder` ties the indices of the ring to what was added and dequeued.  Every step keeps it that
  does not write to the ring without the lock (`InOrder.acts`).
* `Handed` follows the tasks on: a worker has the task with the number that it knows.
* Before the shutdown no call gives the lock back early, so both hold (`Running`).
* Behind the shutdown `KeptOut` takes the place of `Running`: a call that is still inside has found
  the queue full, so that all it can do is to wait.
-/

namespace SafeTransmission

open Outcome
open scoped List

namespace ThreadPhase

/-- The task that the worker has, and its number. -/
def task? : ThreadPhase → Option (ℕ × Task)
  | dequeued k task | running k task | finished k task => some (k, task)
  | _ => none

/-- The number of the task that the worker has not started yet. -/
def pending : ThreadPhase → Option ℕ
  | dequeued k _ => some k
  | _ => none

theorem pending_wake (phase : ThreadPhase) : phase.wake.pending = phase.pending := by
  cases phase <;> rfl

theorem pending_of_testing (phase : ThreadPhase) (h : phase.isTesting = true) :
    phase.pending = none := by
  cases phase with
  | starting | woken => rfl
  | _ => cases h

theorem task?_wake (phase : ThreadPhase) : phase.wake.task? = phase.task? := by
  cases phase <;> rfl

end ThreadPhase

/-- A step of a call of `threadpool_add` that reads or writes the queue. -/
def PoolEvent.addsTask : PoolEvent → Bool
  | add _ _ | goOn _ _ => true
  | _ => false

/-- The step is taken between `pthread_mutex_lock` and `pthread_mutex_unlock`. -/
def PoolEvent.holdsLock : PoolEvent → Bool
  | goOn _ _ => false
  | _ => true

namespace Threadpool

variable {s s' : Threadpool} {e : PoolEvent} {initial : List Task}

/-! ## The ring -/

/-- The ring with what was added and what was dequeued. -/
structure InOrder (initial : List Task) (s : Threadpool) : Prop where
  window : s.queue.Window initial s.added s.dequeued.length
  dequeued : s.dequeued = s.added.take s.dequeued.length

theorem inOrder_create (minThrNum maxThrNum waitExitThrNum : ℤ) (initial : List Task) (findsTerminated : Bool) :
    InOrder initial (threadpoolCreate minThrNum maxThrNum initial waitExitThrNum findsTerminated) :=
  ⟨RingBuffer.window_init initial, rfl⟩

/-- The size says how many tasks are between the indices. -/
theorem InOrder.lt_of_size_ne_zero (h : InOrder initial s) (hsize : s.queue.size ≠ 0) :
    s.dequeued.length < s.added.length := by
  have hle := h.window.popped_le
  have heq := h.window.size
  omega

theorem InOrder.lt_of_size_ne_capacity (h : InOrder initial s)
    (hsize : s.queue.size ≠ s.queue.capacity) :
    s.added.length < s.dequeued.length + initial.length := by
  have hle := h.window.length_le
  have heq := h.window.size
  have hcapacity : s.queue.capacity = initial.length := h.window.capacity
  omega

/-- The ring stays in order if its elements are written only under the lock. -/
theorem InOrder.acts (h : InOrder initial s) (hact : s.Acts e s')
    (hlock : ∀ p target task, e = .goOn p target → s.calls[p]? ≠ some ⟨task, .unlocked⟩) :
    InOrder initial s' := by
  cases hact with
  | dequeues e w n task htests hsize hrunning hslot =>
      have hlt := h.lt_of_size_ne_zero hsize
      rw [h.window.slot_front hlt] at hslot
      refine ⟨?_, ?_⟩
      · change s.queue.pop.Window initial s.added (s.dequeued ++ [task]).length
        rw [List.length_append]
        exact h.window.pop hlt
      · change s.dequeued ++ [task] = s.added.take (s.dequeued ++ [task]).length
        rw [List.length_append, List.length_singleton, List.take_add_one, hslot, ← h.dequeued]
        rfl
  | enqueues e p task old workers henqueues =>
      -- only a call with the lock enqueues, and it has found room
      obtain ⟨p, target, rfl, hsize⟩ :
          ∃ p target, e = .add p target ∧ s.queue.size ≠ s.queue.capacity := by
        cases e with
        | add p target => exact ⟨p, target, rfl, henqueues.2.1⟩
        | goOn p target => exact absurd henqueues (hlock p target task rfl)
        | _ => exact henqueues.elim
      refine ⟨h.window.push (h.lt_of_size_ne_capacity hsize) task, ?_⟩
      rw [List.take_append_of_le_length h.window.popped_le]
      exact h.dequeued
  | grows target phase =>
      obtain ⟨hqueue, hadded, hdequeued⟩ :
          (grow s.threads.length 0 0 { s with adjust := phase }).queue = s.queue ∧
          (grow s.threads.length 0 0 { s with adjust := phase }).added = s.added ∧
          (grow s.threads.length 0 0 { s with adjust := phase }).dequeued = s.dequeued :=
        ⟨grow_eq Threadpool.queue (fun _ _ => rfl) _ _ _ _,
          grow_eq Threadpool.added (fun _ _ => rfl) _ _ _ _,
          grow_eq Threadpool.dequeued (fun _ _ => rfl) _ _ _ _⟩
      refine ⟨?_, ?_⟩
      · rw [hqueue, hadded, hdequeued]
        exact h.window
      · rw [hadded, hdequeued]
        exact h.dequeued
  | _ => exact ⟨h.window, h.dequeued⟩

/-! ## The tasks of the workers -/

/-- A worker has the task with the number that it knows, and every task that was
dequeued waits for its start or has been started. -/
structure Handed (workers : List ThreadPhase) (dequeued : List Task) (started : List ℕ) : Prop where
  task : ∀ phase ∈ workers, ∀ k task, phase.task? = some (k, task) → dequeued[k]? = some task
  numbers : (workers.filterMap ThreadPhase.pending ++ started).Perm (List.range dequeued.length)

namespace Handed

variable {workers workers' : List ThreadPhase} {dequeued : List Task} {started : List ℕ}
  {w k : ℕ} {a b : ThreadPhase} {task : Task}

theorem set (h : Handed workers dequeued started) (hw : workers[w]? = some a)
    (hpending : b.pending = a.pending) (htask : ∀ x, b.task? = some x → a.task? = some x) :
    Handed (workers.set w b) dequeued started where
  task := forall_mem_set h.task
    (fun k task hb => h.task a (List.mem_of_getElem? hw) k task (htask _ hb)) w
  numbers := by
    rw [filterMap_set_of_eq hw hpending]
    exact h.numbers

theorem new (h : Handed workers dequeued started) :
    Handed (workers ++ [.starting]) dequeued started where
  task := forall_mem_concat h.task (by simp [ThreadPhase.task?])
  numbers := by
    have hnone : [ThreadPhase.starting].filterMap ThreadPhase.pending = [] := rfl
    rw [List.filterMap_append, hnone, List.append_nil]
    exact h.numbers

theorem signals (h : Handed workers dequeued started) (hsignals : Signals workers workers') :
    Handed workers' dequeued started where
  task := hsignals.forall_mem h.task (by simp [ThreadPhase.task?])
  numbers := by
    rw [hsignals.filterMap_eq rfl]
    exact h.numbers

theorem wake (h : Handed workers dequeued started) :
    Handed (workers.map ThreadPhase.wake) dequeued started where
  task := by
    intro phase hphase
    obtain ⟨old, hold, rfl⟩ := List.mem_map.mp hphase
    rw [old.task?_wake]
    exact h.task old hold
  numbers := by
    rw [List.filterMap_map, List.filterMap_congr fun phase _ => phase.pending_wake]
    exact h.numbers

theorem dequeue (h : Handed workers dequeued started) (hw : workers[w]? = some a)
    (ha : a.pending = none) :
    Handed (workers.set w (.dequeued dequeued.length task)) (dequeued ++ [task]) started where
  task := by
    apply forall_mem_set
    · intro phase hphase k other hother
      exact getElem?_append_of_some (h.task phase hphase k other hother) _
    · rintro k other ⟨⟩
      exact List.getElem?_concat_length
  numbers := by
    have htaken := filterMap_set_of_some (b := .dequeued dequeued.length task) hw ha
      (f := ThreadPhase.pending) rfl
    rw [List.length_append, List.length_singleton, List.range_succ]
    calc (workers.set w (.dequeued dequeued.length task)).filterMap ThreadPhase.pending ++ started
      _ ~ dequeued.length :: (workers.filterMap ThreadPhase.pending ++ started) :=
          htaken.append_right started
      _ ~ dequeued.length :: List.range dequeued.length := h.numbers.cons _
      _ ~ List.range dequeued.length ++ [dequeued.length] := (List.perm_append_singleton _ _).symm

theorem start (h : Handed workers dequeued started)
    (hw : workers[w]? = some (.dequeued k task)) :
    Handed (workers.set w (.running k task)) dequeued (started ++ [k]) where
  task := forall_mem_set h.task (b := .running k task)
    (fun _ _ hb => h.task _ (List.mem_of_getElem? hw) _ _ hb) w
  numbers := by
    have hstarted := filterMap_set_of_none (b := .running k task) hw (f := ThreadPhase.pending) rfl rfl
    calc (workers.set w (.running k task)).filterMap ThreadPhase.pending ++ (started ++ [k])
      _ ~ k :: ((workers.set w (.running k task)).filterMap ThreadPhase.pending ++ started) := by
          rw [← List.append_assoc]
          exact List.perm_append_singleton _ _
      _ ~ workers.filterMap ThreadPhase.pending ++ started := (hstarted.append_right started).symm
      _ ~ List.range dequeued.length := h.numbers

end Handed

theorem Handed.acts (h : Handed s.workers s.dequeued s.started) (hact : s.Acts e s') :
    Handed s'.workers s'.dequeued s'.started := by
  cases hact with
  | created => exact h.new
  | waits e w n htests =>
      obtain ⟨phase, hw, htesting⟩ := htests.exists_phase
      have hpending := phase.pending_of_testing htesting
      exact h.set hw hpending.symm (by simp [ThreadPhase.task?])
  | leaves e w n htests =>
      obtain ⟨phase, hw, htesting⟩ := htests.exists_phase
      have hpending := phase.pending_of_testing htesting
      exact h.set hw hpending.symm (by simp [ThreadPhase.task?])
  | dequeues e w n task htests =>
      obtain ⟨phase, hw, htesting⟩ := htests.exists_phase
      exact h.dequeue hw (phase.pending_of_testing htesting)
  | retires w shutdown hw => exact h.set hw rfl (by simp [ThreadPhase.task?])
  | wakesUp w hw => exact h.set hw rfl (by simp [ThreadPhase.task?])
  | startsWorking w k task hw => exact h.start hw
  | finishes w k task hw => exact h.set hw rfl fun _ hx => hx
  | endsWorking w k task hw => exact h.set hw rfl (by simp [ThreadPhase.task?])
  | exits w hw => exact h.set hw rfl (by simp [ThreadPhase.task?])
  | enqueues e p task old workers _ _ hsignals => exact h.signals hsignals
  | grows target phase =>
      exact grow_keeps (fun s => Handed s.workers s.dequeued s.started)
        (fun s i hs _ _ => hs.new) _ _ _ h
  | signals target phase workers _ _ hsignals => exact h.signals hsignals
  | broadcasts => exact h.wake
  | _ => exact h

/-! ## Before the shutdown -/

/-- A call has given the lock back early only if it has found the pool shut down. -/
theorem locked_of_acts (h : ∀ call ∈ s.calls, call.phase ≠ .unlocked) (hact : s.Acts e s')
    (hnot : ∀ p, ¬s.Unlocks p e) : ∀ call ∈ s'.calls, call.phase ≠ .unlocked := by
  cases hact with
  | dequeues e w n task htests =>
      intro call hcall
      obtain ⟨old, hold, rfl⟩ := List.mem_map.mp hcall
      unfold AddCall.wake
      split
      · simp
      · exact h old hold
  | calls task => exact forall_mem_concat h (by simp)
  | moves e p call hcall =>
      apply forall_mem_set h
      exact fun hunlocked => hnot p (hcall hunlocked)
  | enqueues e p task => exact forall_mem_set h (by simp) p
  | grows target phase =>
      rw [grow_eq Threadpool.calls fun _ _ => rfl]
      exact h
  | _ => exact h

/-- The pool before the shutdown. -/
structure Running (initial : List Task) (s : Threadpool) : Prop where
  order : InOrder initial s
  handed : Handed s.workers s.dequeued s.started
  locked : ∀ call ∈ s.calls, call.phase ≠ .unlocked

theorem Running.acts (h : Running initial s) (hact : s.Acts e s') (hrunning : s'.shutdown = false) :
    Running initial s' where
  order := by
    apply h.order.acts hact
    intro p target task _ hcall
    exact h.locked _ (List.mem_of_getElem? hcall) rfl
  handed := h.handed.acts hact
  locked := by
    apply locked_of_acts h.locked hact
    intro p hunlocks
    exact Bool.false_ne_true ((shutdown_of_acts hact hrunning).symm.trans hunlocks.shutdown)

theorem running_create (minThrNum maxThrNum waitExitThrNum : ℤ) (initial : List Task) (findsTerminated : Bool) :
    Running initial (threadpoolCreate minThrNum maxThrNum initial waitExitThrNum findsTerminated) := by
  refine ⟨inOrder_create _ _ _ _ _, ⟨?_, ?_⟩, ?_⟩ <;> simp [threadpoolCreate]

/-- What a queue of at most `queueMaxSize` tasks does for its users. -/
structure Fifo (queueMaxSize : ℕ) (s : Threadpool) : Prop where
  size_nonneg : 0 ≤ s.queue.size
  size_le : s.queue.size ≤ queueMaxSize
  rear : (s.queue.rear : ℤ) = (s.queue.front + s.queue.size) % queueMaxSize
  /-- Nothing is lost, duplicated or out of order. -/
  order : s.dequeued ++ s.queue.contents = s.added
  /-- A worker has the task with the number that it knows. -/
  task : ∀ phase ∈ s.workers, ∀ k task, phase.task? = some (k, task) → s.added[k]? = some task
  started : ∀ k ∈ s.started, k < s.dequeued.length
  once : s.started.Nodup

theorem Running.isFifo (h : Running initial s) : s.Fifo initial.length where
  size_nonneg := h.order.window.size_nonneg
  size_le := h.order.window.size_le
  rear := h.order.window.rear_eq
  order := by
    calc s.dequeued ++ s.queue.contents
      _ = s.dequeued ++ s.added.drop s.dequeued.length := by rw [h.order.window.contents_eq]
      _ = s.added.take s.dequeued.length ++ s.added.drop s.dequeued.length := by
          rw [← h.order.dequeued]
      _ = s.added := List.take_append_drop _ _
  task := by
    intro phase hphase k task htask
    have hdequeued := h.handed.task phase hphase k task htask
    rw [h.order.dequeued, List.getElem?_take] at hdequeued
    split at hdequeued
    · exact hdequeued
    · cases hdequeued
  started := by
    intro k hk
    have hmem := h.handed.numbers.subset (List.mem_append_right _ hk)
    exact List.mem_range.mp hmem
  once := (List.nodup_append.mp (h.handed.numbers.nodup_iff.mpr List.nodup_range)).2.1

/-- In every state that the threads reach in any order of their steps, spurious wake-ups
included, while the pool is not shut down, the queue is in order. -/
theorem fifo {minThrNum maxThrNum waitExitThrNum : ℤ} {findsTerminated : Bool} {es : List PoolEvent}
    (hrun : run step es (threadpoolCreate minThrNum maxThrNum initial waitExitThrNum findsTerminated) = ok s)
    (hrunning : s.shutdown = false) : s.Fifo initial.length := by
  have hkeep : ∀ s e s', (s.shutdown = false → Running initial s) → s.step e = ok s' →
      s'.shutdown = false → Running initial s' := by
    intro s e s' h hstep hrunning
    have hact := (acts_of_step hstep).1
    exact (h (shutdown_of_acts hact hrunning)).acts hact hrunning
  exact (inv_of_run (fun s => s.shutdown = false → Running initial s) hkeep (fun _ => running_create _ _ _ _ _)
    hrun
    hrunning).isFifo

/-- A queue of one slot, which a second call finds full before the first task is taken. -/
theorem fifo_oneSlot :
    ∃ s, run step [.create, .create, .call ⟨1, some 5⟩, .call ⟨2, none⟩, .add 0 none, .add 1 none,
      .enter 0, .startWorking 0, .add 1 none]
      (threadpoolCreate 1 1 [⟨0, none⟩] 0 true) = ok s ∧ s.Fifo 1 ∧ s.queue.contents = [⟨2, none⟩] := by
  have hreached : ∃ s, run step [.create, .create, .call ⟨1, some 5⟩, .call ⟨2, none⟩, .add 0 none,
      .add 1 none, .enter 0, .startWorking 0, .add 1 none]
      (threadpoolCreate 1 1 [⟨0, none⟩] 0 true) = ok s ∧ s.shutdown = false ∧
        s.queue.contents = [⟨2, none⟩] := ⟨_, rfl, rfl, by decide +kernel⟩
  obtain ⟨s, hrun, hrunning, hcontents⟩ := hreached
  exact ⟨s, hrun, fifo hrun hrunning, hcontents⟩

/-! ## After the shutdown -/

/-- A call of `threadpool_add` does nothing to a pool that is shut down, reads and writes
the queue only under the lock, and the queue is as it should be behind every step. -/
structure Rejects (queueMaxSize : ℕ) (s : Threadpool) (e : PoolEvent) : Prop where
  keeps : s.shutdown = true → e.addsTask = true → ∀ s', s.step e = ok s' → s'.queue = s.queue
  locked : e.addsTask = true → s.step e ≠ disabled → e.holdsLock = true
  size_nonneg : ∀ s', s.step e = ok s' → 0 ≤ s'.queue.size
  size_le : ∀ s', s.step e = ok s' → s'.queue.size ≤ queueMaxSize
  rear : ∀ s', s.step e = ok s' →
    (s'.queue.rear : ℤ) = (s'.queue.front + s'.queue.size) % queueMaxSize

/-- No call comes to its test once `shutdown` is set, other than the one whose critical section
contains the store; and that one has found the queue full. -/
structure Undisturbed (s : Threadpool) (e : PoolEvent) : Prop where
  enters : ∀ p target, e = .add p target → s.addingTask p ≠ none → s.shutdown = true →
    s.inside = some (.call p)
  inside : ∀ p, e = .shutDownInside (.call p) → s.queue.size = s.queue.capacity

/-- What is true as long as the calls leave a pool alone that is shut down. -/
structure KeptOut (initial : List Task) (s : Threadpool) : Prop where
  order : InOrder initial s
  locked : ∀ call ∈ s.calls, call.phase ≠ .unlocked
  full : ∀ p, s.inside = some (.call p) → s.queue.size = s.queue.capacity

theorem keptOut_create (minThrNum maxThrNum waitExitThrNum : ℤ) (initial : List Task)
    (findsTerminated : Bool) :
    KeptOut initial
      (threadpoolCreate minThrNum maxThrNum initial waitExitThrNum findsTerminated) := by
  refine ⟨inOrder_create _ _ _ _ _, ?_, ?_⟩ <;> simp [threadpoolCreate]

theorem Undisturbed.not_unlocks (h : s.Undisturbed e) (p : ℕ) : ¬s.Unlocks p e := by
  intro hunlocks
  cases e with
  | add q target =>
      obtain ⟨rfl, hadding, ⟨hnone, hshutdown⟩ | ⟨-, hreads⟩⟩ := hunlocks
      · have hinside := h.enters q target rfl hadding hshutdown.symm
        cases hnone.symm.trans hinside
      · cases hreads
  | _ => exact hunlocks.elim

theorem KeptOut.not_goOn (h : KeptOut initial s) {p : ℕ} {task : Task} :
    s.calls[p]? ≠ some ⟨task, .unlocked⟩ :=
  fun hcall => h.locked _ (List.mem_of_getElem? hcall) rfl

theorem KeptOut.acts (h : KeptOut initial s) (hundisturbed : s.Undisturbed e) (hact : s.Acts e s') :
    KeptOut initial s' where
  order := h.order.acts hact fun _ _ _ _ => h.not_goOn
  locked := locked_of_acts h.locked hact hundisturbed.not_unlocks
  full := by
    intro p hinside
    have hkept : ∀ {inside}, inside = none ∨ inside = s.inside → inside = some (.call p) →
        s.queue.size = s.queue.capacity := by
      rintro inside (rfl | rfl) hsome
      · cases hsome
      · exact h.full p hsome
    cases hact with
    | waits | leaves | dequeues | retires => cases hinside
    | moves e => exact hkept (insideAfter_eq_or s e) hinside
    | enqueues e q task old workers henqueues =>
        -- a call that enqueues with the lock is not inside any more
        cases e with
        | add q target => cases hinside
        | goOn q target => exact absurd henqueues h.not_goOn
        | _ => exact henqueues.elim
    | grows target phase =>
        rw [grow_eq Threadpool.inside fun _ _ => rfl] at hinside
        rw [grow_eq Threadpool.queue fun _ _ => rfl]
        exact h.full p hinside
    | shutsDownInside holder =>
        obtain rfl : holder = .call p := Option.some.inj hinside
        exact hundisturbed.inside p rfl
    | _ => exact h.full p hinside

/-- A call leaves a pool alone that is shut down. -/
theorem KeptOut.queue_of_acts (h : KeptOut initial s) (hundisturbed : s.Undisturbed e)
    (hact : s.Acts e s') (hshutdown : s.shutdown = true) (hadds : e.addsTask = true) :
    s'.queue = s.queue := by
  cases hact with
  | dequeues e w n task htests =>
      rcases htests with ⟨rfl, -⟩ | ⟨rfl, -⟩
      · cases hadds
      · cases hadds
  | enqueues e q task old workers henqueues =>
      cases e with
      | add p target =>
          obtain ⟨-, hroom, hadding⟩ := henqueues
          have hinside := hundisturbed.enters p target rfl (by simp [hadding]) hshutdown
          exact absurd (h.full p hinside) hroom
      | goOn p target => exact absurd henqueues h.not_goOn
      | _ => exact henqueues.elim
  | grows => cases hadds
  | _ => rfl

theorem KeptOut.rejects_step (h : KeptOut initial s) (hundisturbed : s.Undisturbed e) :
    s.Rejects initial.length e := by
  have hwindow : ∀ s', s.step e = ok s' → s'.queue.Window initial s'.added s'.dequeued.length :=
    fun s' hstep => (h.acts hundisturbed (acts_of_step hstep).1).order.window
  refine ⟨fun hshutdown hadds s' hstep => ?_, fun hadds htaken => ?_,
    fun s' hstep => (hwindow s' hstep).size_nonneg, fun s' hstep => (hwindow s' hstep).size_le,
    fun s' hstep => (hwindow s' hstep).rear_eq⟩
  · exact h.queue_of_acts hundisturbed (acts_of_step hstep).1 hshutdown hadds
  · cases e with
    | goOn p target =>
        apply absurd _ htaken
        have hdisabled : s.act (.goOn p target) = disabled := by
          rw [act, goOn]
          split
          · rename_i task hcall
            exact absurd hcall h.not_goOn
          · rfl
        rw [step, hdisabled]
        rfl
    | _ => rfl

/-- In every run in which no call comes to its test once `shutdown` is set, and none that has found
room is in its critical section then, calls of `threadpool_add` do nothing after the shutdown, and
the queue stays in order. -/
theorem rejects {minThrNum maxThrNum waitExitThrNum : ℤ} {findsTerminated : Bool}
    {es : List PoolEvent}
    (hes : EachStep step Undisturbed es
      (threadpoolCreate minThrNum maxThrNum initial waitExitThrNum findsTerminated)) :
    EachStep step (Rejects initial.length) es
      (threadpoolCreate minThrNum maxThrNum initial waitExitThrNum findsTerminated) := by
  have hkeep : ∀ s e s', KeptOut initial s → s.Undisturbed e → s.step e = ok s' →
      KeptOut initial s' := fun s e s' h hundisturbed hstep =>
    h.acts hundisturbed (acts_of_step hstep).1
  exact EachStep.imp (KeptOut initial) (fun _ _ h => h.rejects_step) hkeep
    (keptOut_create _ _ _ _ _) hes

/-- A test whether a step leaves the calls undisturbed. -/
def isUndisturbed (s : Threadpool) : PoolEvent → Bool
  | .add p _ => s.addingTask p = none || !s.shutdown || s.inside = some (.call p)
  | .shutDownInside (.call _) => s.queue.size = s.queue.capacity
  | _ => true

theorem undisturbed_of_test (s : Threadpool) (e : PoolEvent) (h : s.isUndisturbed e = true) :
    s.Undisturbed e where
  enters := by
    rintro p target rfl hadding hshutdown
    simpa [isUndisturbed, hadding, hshutdown] using h
  inside := by
    rintro p rfl
    simpa [isUndisturbed] using h

/-- Two calls find the queue of one slot full, the second one just before the pool is shut down. -/
def blockedCalls : List PoolEvent :=
  [.create, .create, .call ⟨1, none⟩, .add 0 none, .call ⟨2, none⟩, .add 1 none, .call ⟨3, none⟩,
    .shutDownInside (.call 2), .add 2 none, .enter 0, .exit 0, .adjust none, .destroy, .destroy]

theorem rejects_blockedCalls :
    EachStep step (Rejects 1) blockedCalls (threadpoolCreate 1 1 [⟨0, none⟩] 0 true) :=
  @rejects [⟨0, none⟩] 1 1 0 true blockedCalls
    (EachStep.of_test undisturbed_of_test (by decide +kernel))

/-- A call on a full queue of one slot after the shutdown counts a second task. -/
theorem not_rejects_full :
    ¬EachStep step (Rejects 1) [.create, .create, .call ⟨1, none⟩, .add 0 none, .destroy,
      .call ⟨2, none⟩, .add 1 none, .goOn 1 none] (threadpoolCreate 1 1 [⟨0, none⟩] 0 true) := by
  intro hrejects
  have hlast := (((((((hrejects.2 _ rfl).2 _ rfl).2 _ rfl).2 _ rfl).2 _ rfl).2 _ rfl).2 _ rfl).1
  have hsize := hlast.size_le _ rfl
  exact absurd hsize (by decide +kernel)

end Threadpool

end SafeTransmission
