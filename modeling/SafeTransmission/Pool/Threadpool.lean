import SafeTransmission.Library.RingBuffer
import SafeTransmission.Library.Runs

/-!
# The thread pool

Producers put tasks into a queue of bounded size with `threadpool_add`, workers take them out and
run them, and one more thread lets the number of workers grow and shrink.  `threadpool_destroy`
stops all of them.

## What one step is

The steps of the threads come in any order.  A critical section, from the return of
`pthread_mutex_lock` or `pthread_cond_wait` to the next wait or unlock, is one step: whatever else
takes the lock comes before it or behind it.  Only `threadpool_destroy` works without the lock.

* It stores `shutdown` while another thread may be in its section.  A section reads `shutdown` once
  where that decides something, and what it has read before the store it goes on with.  The section
  that contains the store is therefore split in two: `shutDownInside` is the store, and the step of
  the thread that is `inside` comes behind it, with `shutdown` as it was.
* Its broadcasts fall behind the store.  A section that begins behind the store does not wait, so a
  broadcast in the middle of it might as well come before it; and the one that contains the store ends in its
  own step, before or behind the broadcasts.
* A call of `threadpool_add` that has given the lock back goes on without it, in `goOn`.

A signal wakes one waiting thread if there is any, and a waiting thread may also wake up by itself.
To destroy a condition variable that a thread waits for is undefined.

## What is left to the system

`is_thread_alive` asks `pthread_kill`, and whether that finds a thread that has terminated and was
not joined depends on the system (`findsTerminated`): it does from version 2.34 of glibc on, and did
not before.

Workers and calls of `threadpool_add` are numbered in the order in which they come up.  A thread id
is the number of the worker: no thread is detached, so no id comes up twice.  The state also records
what happened to the tasks.  Left out are the prints and the failures of `malloc`, `pthread_create`
and of the other functions that initialise.
-/

namespace SafeTransmission

open Outcome

/-! ## The threads -/

/-- `threadpool_task_t`; an argument is `none` if it is `NULL`. -/
structure Task where
  function : ℕ
  arg : Option ℕ
deriving DecidableEq, Repr

/-- What a worker does next in `threadpool_thread`.  With a task goes its number in the
order of dequeuing. -/
inductive ThreadPhase where
  /-- It takes the lock and tests the queue. -/
  | starting
  /-- It is blocked on `queue_not_empty`. -/
  | waiting
  /-- It returns from `pthread_cond_wait`. -/
  | woken
  /-- It counts itself as busy. -/
  | dequeued (k : ℕ) (task : Task)
  /-- It is in the function of the task. -/
  | running (k : ℕ) (task : Task)
  /-- It counts itself as no longer busy. -/
  | finished (k : ℕ) (task : Task)
  /-- It has left the loop. -/
  | exiting
  | terminated
deriving DecidableEq, Repr

namespace ThreadPhase

/-- The effect of `pthread_cond_broadcast(&queue_not_empty)`. -/
def wake : ThreadPhase → ThreadPhase
  | waiting => woken
  | phase => phase

end ThreadPhase

/-- What a call of `threadpool_add` does next. -/
inductive CallPhase where
  /-- It takes the lock and tests the queue. -/
  | entering
  /-- It is blocked on `queue_not_full`. -/
  | waiting
  | woken
  /-- It found `shutdown` set and has given the lock back. -/
  | unlocked
  | returned
deriving DecidableEq, Repr

/-- A call of `threadpool_add`. -/
structure AddCall where
  task : Task
  phase : CallPhase
deriving DecidableEq, Repr

/-- The effect of `pthread_cond_broadcast(&queue_not_full)`. -/
def AddCall.wake (call : AddCall) : AddCall :=
  if call.phase = .waiting then { call with phase := .woken } else call

/-- What `adjust_thread` does next, with its local variables. -/
inductive AdjustPhase where
  /-- It tests `shutdown`. -/
  | testing
  /-- It sleeps, and then reads the sizes. -/
  | sleeping
  | sampled (queueSize liveThrNum : ℤ)
  /-- It creates threads if it has to. -/
  | growing (queueSize liveThrNum busyThrNum : ℤ)
  /-- It asks threads to exit if it has to. -/
  | shrinking (liveThrNum busyThrNum : ℤ)
  | signalling (left : ℕ)
  | ended
deriving DecidableEq, Repr

/-- What `threadpool_destroy` does next. -/
inductive DestroyPhase where
  | uncalled
  | joiningAdjust
  | broadcasting (i : ℕ)
  | joining (i : ℕ)
  /-- It calls `threadpool_free`. -/
  | freeing
  | freed
deriving DecidableEq, Repr

/-- A thread that takes `pool->lock` and tests `shutdown`. -/
inductive Holder where
  | worker (w : ℕ)
  | call (p : ℕ)
deriving DecidableEq, Repr

/-- `threadpool_t` and the threads that share it. -/
structure Threadpool where
  minThrNum : ℤ
  maxThrNum : ℤ
  liveThrNum : ℤ
  busyThrNum : ℤ
  waitExitThrNum : ℤ
  /-- `task_queue`, with `queue_front`, `queue_rear` and `queue_size`; `queue_max_size` is
  the number of slots. -/
  queue : RingBuffer Task
  /-- The worker whose id is in a slot, if the slot is not zero. -/
  threads : List (Option ℕ)
  shutdown : Bool
  /-- Whose critical section contains the store of `shutdown`, until it ends. -/
  inside : Option Holder
  /-- `pthread_kill` finds a thread that has terminated. -/
  findsTerminated : Bool
  workers : List ThreadPhase
  calls : List AddCall
  adjust : AdjustPhase
  destroy : DestroyPhase
  /-- How many workers `threadpool_create` has created, until it returns. -/
  creating : Option ℕ
  /-- The tasks that were enqueued. -/
  added : List Task
  dequeued : List Task
  /-- The numbers of the tasks whose function was called. -/
  started : List ℕ
  /-- The numbers of the tasks whose function has returned. -/
  finished : List ℕ
  /-- The arguments that `threadpool_add` has freed. -/
  frees : List ℕ
deriving DecidableEq, Repr

/-- A step of a thread.  A signal names the thread that it wakes. -/
inductive PoolEvent where
  | create
  | enter (w : ℕ)
  | wakeUp (w : ℕ)
  | resume (w : ℕ)
  | startWorking (w : ℕ)
  | finish (w : ℕ)
  | endWorking (w : ℕ)
  | exit (w : ℕ)
  | call (task : Task)
  | add (p : ℕ) (target : Option ℕ)
  | wakeCall (p : ℕ)
  | goOn (p : ℕ) (target : Option ℕ)
  | adjust (target : Option ℕ)
  | destroy
  /-- `threadpool_destroy` begins while another thread is in its critical section. -/
  | shutDownInside (holder : Holder)
deriving DecidableEq, Repr

namespace PoolEvent

/-- The step reads or writes the pool. -/
def usesPool : PoolEvent → Bool
  | finish _ | exit _ | call _ => false
  | _ => true

/-- A step of `threadpool_destroy`. -/
def byDestroy : PoolEvent → Bool
  | destroy | shutDownInside _ => true
  | _ => false

end PoolEvent

namespace Threadpool

/-! ## `threadpool_create` -/

/-- The pool in `threadpool_create` before the first thread is created.  The slots of the queue and
`wait_exit_thr_num` are what is in the memory, and `findsTerminated` belongs to the system. -/
def threadpoolCreate (minThrNum maxThrNum : ℤ) (taskQueue : List Task) (waitExitThrNum : ℤ)
    (findsTerminated : Bool) : Threadpool where
  minThrNum := minThrNum
  maxThrNum := maxThrNum
  liveThrNum := minThrNum
  busyThrNum := 0
  waitExitThrNum := waitExitThrNum
  queue := ⟨taskQueue, 0, 0, 0⟩
  threads := List.replicate maxThrNum.toNat none
  shutdown := false
  inside := none
  findsTerminated := findsTerminated
  workers := []
  calls := []
  adjust := .testing
  destroy := .uncalled
  creating := some 0
  added := []
  dequeued := []
  started := []
  finished := []
  frees := []

/-- `pthread_create(&(pool->threads[i]), NULL, threadpool_thread, pool)`. -/
def createThread (s : Threadpool) (i : ℕ) : Threadpool :=
  { s with threads := s.threads.set i (some s.workers.length), workers := s.workers ++ [.starting] }

/-- The next round of the loop that creates threads, or what comes behind it. -/
def create (s : Threadpool) : Outcome Threadpool :=
  match s.creating with
  | none => disabled
  | some i =>
      if (i : ℤ) < s.minThrNum then
        if i < s.threads.length then ok { s.createThread i with creating := some (i + 1) }
        else fault .writeOutOfBounds
      -- the thread that runs `adjust_thread` is there
      else ok { s with creating := none }

/-! ## `pool->lock` -/

/-- The critical section of a thread ends; what it has read of `shutdown` goes on. -/
def takeLock (s : Threadpool) (holder : Holder) : Outcome (Bool × Threadpool) :=
  match s.inside with
  | none => ok (s.shutdown, s)
  | some owner => if owner = holder then ok (false, { s with inside := none }) else disabled

/-! ## `threadpool_thread` -/

def setWorker (s : Threadpool) (w : ℕ) (phase : ThreadPhase) : Threadpool :=
  { s with workers := s.workers.set w phase }

/-- From the test of the inner loop on. -/
def testQueue (s : Threadpool) (shutdown : Bool) (w : ℕ) : Outcome Threadpool :=
  if s.queue.size = 0 ∧ shutdown = false then ok (s.setWorker w .waiting)
  else if shutdown = true then ok (s.setWorker w .exiting)
  else match s.queue.slots[s.queue.front]? with
    | none => fault .readOutOfBounds
    | some task => ok { s.setWorker w (.dequeued s.dequeued.length task) with
        queue := s.queue.pop
        calls := s.calls.map AddCall.wake
        dequeued := s.dequeued ++ [task] }

def enter (s : Threadpool) (w : ℕ) : Outcome Threadpool := do
  require (s.workers[w]? = some .starting)
  let (shutdown, s) ← s.takeLock (.worker w)
  s.testQueue shutdown w

/-- `pthread_cond_wait` returns without a signal. -/
def wakeUp (s : Threadpool) (w : ℕ) : Outcome Threadpool := do
  require (s.workers[w]? = some .waiting)
  ok (s.setWorker w .woken)

/-- Behind `pthread_cond_wait`. -/
def resume (s : Threadpool) (w : ℕ) : Outcome Threadpool := do
  require (s.workers[w]? = some .woken)
  let (shutdown, s) ← s.takeLock (.worker w)
  if 0 < s.waitExitThrNum then
    if s.minThrNum < s.liveThrNum then
      ok { s.setWorker w .exiting with
        waitExitThrNum := s.waitExitThrNum - 1, liveThrNum := s.liveThrNum - 1 }
    else testQueue { s with waitExitThrNum := s.waitExitThrNum - 1 } shutdown w
  else s.testQueue shutdown w

def startWorking (s : Threadpool) (w : ℕ) : Outcome Threadpool :=
  match s.workers[w]? with
  | some (.dequeued k task) => ok { s.setWorker w (.running k task) with
      busyThrNum := s.busyThrNum + 1, started := s.started ++ [k] }
  | _ => disabled

/-- The function of the task returns. -/
def finish (s : Threadpool) (w : ℕ) : Outcome Threadpool :=
  match s.workers[w]? with
  | some (.running k task) => ok { s.setWorker w (.finished k task) with finished := s.finished ++ [k] }
  | _ => disabled

def endWorking (s : Threadpool) (w : ℕ) : Outcome Threadpool :=
  match s.workers[w]? with
  | some (.finished _ _) => ok { s.setWorker w .starting with busyThrNum := s.busyThrNum - 1 }
  | _ => disabled

/-- `pthread_exit`. -/
def exit (s : Threadpool) (w : ℕ) : Outcome Threadpool := do
  require (s.workers[w]? = some .exiting)
  ok (s.setWorker w .terminated)

/-! ## `threadpool_add` -/

/-- The call is made. -/
def call (s : Threadpool) (task : Task) : Outcome Threadpool := do
  require (s.creating = none)
  ok { s with calls := s.calls ++ [⟨task, .entering⟩] }

def setCall (s : Threadpool) (p : ℕ) (call : AddCall) : Threadpool :=
  { s with calls := s.calls.set p call }

/-- `pthread_cond_signal(&(pool->queue_not_empty))`. -/
def signal (s : Threadpool) : Option ℕ → Outcome Threadpool
  | none => do
      require (∀ phase ∈ s.workers, phase ≠ .waiting)
      ok s
  | some w => do
      require (s.workers[w]? = some .waiting)
      ok (s.setWorker w .woken)

/-- From the test of the old argument to the signal. -/
def enqueue (s : Threadpool) (task : Task) (target : Option ℕ) : Outcome Threadpool :=
  match s.queue.slots[s.queue.rear]? with
  | none => fault .readOutOfBounds
  | some old => signal { s with
      queue := s.queue.push task
      added := s.added ++ [task]
      frees := s.frees ++ old.arg.toList } target

/-- From the test of the loop on. -/
def addTask (s : Threadpool) (shutdown : Bool) (p : ℕ) (task : Task) (target : Option ℕ) :
    Outcome Threadpool :=
  if s.queue.size = s.queue.capacity ∧ shutdown = false then ok (s.setCall p ⟨task, .waiting⟩)
  else if shutdown = true then ok (s.setCall p ⟨task, .unlocked⟩)
  else (s.setCall p ⟨task, .returned⟩).enqueue task target

/-- The task of a call that takes the lock next. -/
def addingTask (s : Threadpool) (p : ℕ) : Option Task :=
  match s.calls[p]? with
  | some ⟨task, .entering⟩ => some task
  | some ⟨task, .woken⟩ => some task
  | _ => none

def add (s : Threadpool) (p : ℕ) (target : Option ℕ) : Outcome Threadpool :=
  match s.addingTask p with
  | none => disabled
  | some task => do
      let (shutdown, s) ← s.takeLock (.call p)
      s.addTask shutdown p task target

/-- `pthread_cond_wait` returns without a broadcast. -/
def wakeCall (s : Threadpool) (p : ℕ) : Outcome Threadpool :=
  match s.calls[p]? with
  | some ⟨task, .waiting⟩ => ok (s.setCall p ⟨task, .woken⟩)
  | _ => disabled

/-- The branch for `shutdown` does not return, and what is behind it runs without the
lock, here in one step. -/
def goOn (s : Threadpool) (p : ℕ) (target : Option ℕ) : Outcome Threadpool :=
  match s.calls[p]? with
  | some ⟨task, .unlocked⟩ => (s.setCall p ⟨task, .returned⟩).enqueue task target
  | _ => disabled

/-! ## `adjust_thread` -/

/-- `MIN_WAIT_TASK_NUM`. -/
def minWaitTaskNum : ℤ := 10

/-- `DEFAULT_THREAD_VARY`. -/
def defaultThreadVary : ℕ := 10

def isThreadAlive (s : Threadpool) (w : ℕ) : Bool :=
  s.findsTerminated || s.workers[w]? ≠ some .terminated

/-- `pool->threads[i] == 0 || !is_thread_alive(pool->threads[i])`. -/
def slotFree (s : Threadpool) (i : ℕ) : Bool :=
  match s.threads[i]? with
  | some none => true
  | some (some w) => !s.isThreadAlive w
  | none => false

/-- The loop that creates threads, from slot `i` on, with `left` slots left. -/
def grow : ℕ → ℕ → ℕ → Threadpool → Threadpool
  | 0, _, _, s => s
  | left + 1, i, add, s =>
      if add < defaultThreadVary ∧ s.liveThrNum < s.maxThrNum then
        if s.slotFree i then
          grow left (i + 1) (add + 1) { s.createThread i with liveThrNum := s.liveThrNum + 1 }
        else grow left (i + 1) add s
      else s

def adjustThread (s : Threadpool) (target : Option ℕ) : Outcome Threadpool := do
  require (s.creating = none)
  match s.adjust with
  | .testing => ok { s with adjust := if s.shutdown then .ended else .sleeping }
  | .sleeping => do
      require (s.inside = none)
      ok { s with adjust := .sampled s.queue.size s.liveThrNum }
  | .sampled queueSize liveThrNum =>
      ok { s with adjust := .growing queueSize liveThrNum s.busyThrNum }
  | .growing queueSize liveThrNum busyThrNum =>
      let s := { s with adjust := .shrinking liveThrNum busyThrNum }
      if minWaitTaskNum ≤ queueSize ∧ liveThrNum < s.maxThrNum then do
        require (s.inside = none)
        ok (grow s.threads.length 0 0 s)
      else ok s
  | .shrinking liveThrNum busyThrNum =>
      if busyThrNum * 2 < liveThrNum ∧ s.minThrNum < liveThrNum then do
        require (s.inside = none)
        ok { s with waitExitThrNum := defaultThreadVary, adjust := .signalling defaultThreadVary }
      else ok { s with adjust := .testing }
  | .signalling 0 => ok { s with adjust := .testing }
  | .signalling (left + 1) => signal { s with adjust := .signalling left } target
  | .ended => disabled

/-! ## `threadpool_destroy` -/

/-- A thread that waits for a condition variable of the pool. -/
def SomeoneWaits (s : Threadpool) : Prop :=
  (∃ phase ∈ s.workers, phase = .waiting) ∨ ∃ call ∈ s.calls, call.phase = .waiting

instance (s : Threadpool) : Decidable s.SomeoneWaits :=
  inferInstanceAs (Decidable (_ ∨ _))

def destroyStep (s : Threadpool) : Outcome Threadpool :=
  match s.destroy with
  | .uncalled => do
      require (s.creating = none)
      ok { s with shutdown := true, destroy := .joiningAdjust }
  | .joiningAdjust => do
      require (s.adjust = .ended)
      ok { s with destroy := .broadcasting 0 }
  | .broadcasting i =>
      if (i : ℤ) < s.liveThrNum then
        ok { s with workers := s.workers.map ThreadPhase.wake, destroy := .broadcasting (i + 1) }
      else ok { s with destroy := .joining 0 }
  | .joining i =>
      if (i : ℤ) < s.liveThrNum then
        match s.threads[i]? with
        | some (some w) => do
            require (s.workers[w]? = some .terminated)
            ok { s with destroy := .joining (i + 1) }
        | _ => fault .nullDeref
      else ok { s with destroy := .freeing }
  | .freeing =>
      -- `pthread_cond_destroy`
      if s.SomeoneWaits then fault .useAfterFree else ok { s with destroy := .freed }
  | .freed => disabled

/-- The thread may be in its critical section. -/
def MayHold (s : Threadpool) : Holder → Prop
  | .worker w => s.workers[w]? = some .starting ∨ s.workers[w]? = some .woken
  | .call p => s.addingTask p ≠ none

instance (s : Threadpool) : (holder : Holder) → Decidable (s.MayHold holder)
  | .worker _ => inferInstanceAs (Decidable (_ ∨ _))
  | .call _ => inferInstanceAs (Decidable (_ ≠ _))

/-- The store of `shutdown` in the critical section of a thread that has tested it. -/
def shutDownInside (s : Threadpool) (holder : Holder) : Outcome Threadpool := do
  require (s.destroy = .uncalled ∧ s.creating = none ∧ s.MayHold holder)
  ok { s with shutdown := true, inside := some holder, destroy := .joiningAdjust }

/-! ## Steps -/

/-- The step of a thread on a pool that is there. -/
def act (s : Threadpool) : PoolEvent → Outcome Threadpool
  | .create => s.create
  | .enter w => s.enter w
  | .wakeUp w => s.wakeUp w
  | .resume w => s.resume w
  | .startWorking w => s.startWorking w
  | .finish w => s.finish w
  | .endWorking w => s.endWorking w
  | .exit w => s.exit w
  | .call task => s.call task
  | .add p target => s.add p target
  | .wakeCall p => s.wakeCall p
  | .goOn p target => s.goOn p target
  | .adjust target => s.adjustThread target
  | .destroy => s.destroyStep
  | .shutDownInside holder => s.shutDownInside holder

/-- The step of a thread. -/
def step (s : Threadpool) (e : PoolEvent) : Outcome Threadpool := do
  let s' ← s.act e
  if s.destroy = .freed ∧ e.usesPool = true then fault .useAfterFree else ok s'

/-! ## Pieces of runs -/

/-- Calls with the numbers from `first` on, while no worker waits. -/
def addTasks (first count : ℕ) : List PoolEvent :=
  (List.range count).flatMap fun i => [.call ⟨0, none⟩, .add (first + i) none]

/-- A worker runs one task after the other. -/
def runTasks (w count : ℕ) : List PoolEvent :=
  (List.replicate count [.enter w, .startWorking w, .finish w, .endWorking w]).flatten

/-- Steps of `adjust_thread`, while no worker waits. -/
def adjusts (count : ℕ) : List PoolEvent :=
  List.replicate count (.adjust none)

end Threadpool

end SafeTransmission
