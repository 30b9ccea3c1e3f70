import SafeTransmission.Pool.Threadpool

/-!
# `Epoll`: events of the clients

The thread in `initepoll` waits for readable descriptors.  For each one it writes the
descriptor into its `Epoll` object and gives the pool a task with that object.  The task
calls `working`, which receives a request, builds the answer and sends it.

There is one object for all events.  `working` takes the descriptor out of it twice, when
it calls `recvdata` and when it calls `senddata`.

The steps of the threads come in any order.  A worker that reads `ep->fd` and calls
`recvdata` or `senddata` with it takes two steps.  The tasks are numbered by the pool, and
the state records for each event on which descriptors its task worked.

`threadpool_add` frees the argument that it finds in a slot.  The pool does not know what the
address is; here there is only the object that may be freed, and only once.

Left out are

* the members of the object that never change, the listening socket, and what `working` does with
  a request,
* the failures of `recv` and `send`: a `recv` that fails leaves the length at zero, so `recvdata`
  goes on as with an empty message, and a `send` that fails closes the descriptor that it was called
  with,
* the closing of descriptors, and their numbers for later clients.
-/

namespace SafeTransmission

open Outcome

/-! ## Events and their tasks -/

/-- What `recvdata` finds. -/
inductive Received where
  /-- The client has closed the connection: the result is `0`. -/
  | closed
  /-- The length in front is `0`: an empty message goes back, and the result is `0`. -/
  | blank
  /-- A request. -/
  | request
deriving DecidableEq, Repr

/-- What the task of an event does next in `working`. -/
inductive WorkingPhase where
  /-- It reads `ep->fd`. -/
  | called
  /-- It is in `recvdata(fd, ..)`. -/
  | receiving (fd : ℕ)
  /-- It builds the answer, and reads `ep->fd`. -/
  | received
  /-- It is in `senddata(fd, ..)`. -/
  | sending (fd : ℕ)
  | returned
deriving DecidableEq, Repr

/-- An event of a client. -/
structure ClientEvent where
  /-- `events[i].data.fd`. -/
  fd : ℕ
  phase : WorkingPhase
  /-- The descriptors on which `recvdata` was called for it. -/
  reads : List ℕ
  /-- The descriptors to which it was answered. -/
  replies : List ℕ
deriving DecidableEq, Repr

/-- What `initepoll` does next. -/
inductive DispatchPhase where
  /-- It waits, or takes the next event of the array. -/
  | handling
  /-- It has written the object, and calls `threadpool_add`. -/
  | stored
  /-- It is in the call of `threadpool_add` with this number. -/
  | adding (p : ℕ)
deriving DecidableEq, Repr

/-- The object with the threads that use it. -/
structure Epoll where
  /-- The listening socket. -/
  lfd : ℕ
  /-- `this->fd`. -/
  fd : ℕ
  pool : Threadpool
  dispatch : DispatchPhase
  /-- What is left of the array that `epoll_wait` filled. -/
  ready : List ℕ
  /-- The events of clients that `initepoll` has taken, in order. -/
  events : List ClientEvent
deriving DecidableEq, Repr

/-- A step of `initepoll`, of the pool, or of the task that a worker runs. -/
inductive EpollEvent where
  | wait (fds : List ℕ)
  | take
  | add
  | back
  | pool (e : PoolEvent)
  | readFd (w : ℕ)
  | recvdata (w : ℕ) (received : Received)
  | readFdAgain (w : ℕ)
  | senddata (w : ℕ)
deriving DecidableEq, Repr

namespace Epoll

/-- The address of the object. -/
def ep : ℕ := 0

/-- `process`, with the object. -/
def processTask : Task := ⟨0, some ep⟩

/-- The length of the array for `epoll_wait`. -/
def maxEvents : ℕ := 1024

/-- A member of the object is read or written. -/
def access (s : Epoll) : Outcome Unit :=
  if ep ∈ s.pool.frees then fault .useAfterFree else ok ()

/-! ## `initepoll` -/

/-- In front of the loop, in `threadpool_create(3, 10, 10)`. -/
def initepoll (lfd fd : ℕ) (taskQueue : Vector Task 10) (waitExitThrNum : ℤ)
    (findsTerminated : Bool) : Epoll where
  lfd := lfd
  fd := fd
  pool := .threadpoolCreate 3 10 taskQueue.toList waitExitThrNum findsTerminated
  dispatch := .handling
  ready := []
  events := []

/-- `epoll_wait` returns, with no descriptors if it failed. -/
def wait (s : Epoll) (fds : List ℕ) : Outcome Epoll := do
  require (s.pool.creating = none ∧ s.dispatch = .handling ∧ s.ready = [] ∧ fds.length ≤ maxEvents)
  s.access
  ok { s with ready := fds }

/-- A round of the loop over the array, up to the call of `threadpool_add`. -/
def take (s : Epoll) : Outcome Epoll := do
  require (s.dispatch = .handling)
  match s.ready with
  | [] => disabled
  | fd :: rest => do
      s.access
      if fd = s.lfd then ok { s with ready := rest }
      else ok { s with
        ready := rest
        fd := fd
        dispatch := .stored
        events := s.events ++ [⟨fd, .called, [], []⟩] }

/-- The call of `threadpool_add`. -/
def add (s : Epoll) : Outcome Epoll := do
  require (s.dispatch = .stored)
  let pool ← s.pool.step (.call processTask)
  ok { s with pool := pool, dispatch := .adding s.pool.calls.length }

/-- `threadpool_add` has returned. -/
def back (s : Epoll) : Outcome Epoll :=
  match s.dispatch with
  | .adding p => do
      require (s.pool.calls[p]?.map AddCall.phase = some .returned)
      ok { s with dispatch := .handling }
  | _ => disabled

/-! ## `working` -/

/-- The event whose task the worker runs, with its number. -/
def served (s : Epoll) (w : ℕ) : Outcome (ℕ × ClientEvent) :=
  match s.pool.workers[w]? with
  | some (.running k _) => match s.events[k]? with
    | some event => ok (k, event)
    | none => disabled
  | _ => disabled

def setEvent (s : Epoll) (k : ℕ) (event : ClientEvent) : Epoll :=
  { s with events := s.events.set k event }

/-- The task reads `ep->fd`. -/
def loadFd (s : Epoll) (w : ℕ) (before : WorkingPhase) (after : ℕ → WorkingPhase) :
    Outcome Epoll := do
  let (k, event) ← s.served w
  require (event.phase = before)
  s.access
  ok (s.setEvent k { event with phase := after s.fd })

/-- `process`, up to the call of `recvdata`. -/
def readFd (s : Epoll) (w : ℕ) : Outcome Epoll :=
  s.loadFd w .called .receiving

def recvdata (s : Epoll) (w : ℕ) (received : Received) : Outcome Epoll := do
  let (k, event) ← s.served w
  match event.phase with
  | .receiving fd =>
      match received with
      | .closed => ok (s.setEvent k { event with phase := .returned, reads := event.reads ++ [fd] })
      | .blank => ok (s.setEvent k { event with
          phase := .returned, reads := event.reads ++ [fd], replies := event.replies ++ [fd] })
      | .request => ok (s.setEvent k { event with phase := .received, reads := event.reads ++ [fd] })
  | _ => disabled

/-- What is behind `recvdata`, up to the call of `senddata`. -/
def readFdAgain (s : Epoll) (w : ℕ) : Outcome Epoll :=
  s.loadFd w .received .sending

def senddata (s : Epoll) (w : ℕ) : Outcome Epoll := do
  let (k, event) ← s.served w
  match event.phase with
  | .sending fd =>
      ok (s.setEvent k { event with phase := .returned, replies := event.replies ++ [fd] })
  | _ => disabled

/-! ## Steps -/

/-- The pool takes the step by itself: only `initepoll` adds tasks, nobody destroys the
pool, and a task ends when `working` has returned. -/
def allows (s : Epoll) : PoolEvent → Bool
  | .call _ | .destroy | .shutDownInside _ => false
  | .finish w => match s.served w with
    | ok (_, event) => event.phase = .returned
    | _ => false
  | _ => true

/-- `free(pool->task_queue[pool->queue_rear].arg)`. -/
def free (s : Epoll) (arg : ℕ) : Outcome Unit :=
  if arg ≠ ep then fault .invalidFree
  else if ep ∈ s.pool.frees then fault .doubleFree
  else ok ()

/-- A step of the pool, with the argument that it has freed. -/
def poolStep (s : Epoll) (e : PoolEvent) : Outcome Epoll := do
  require (s.allows e = true)
  let pool ← s.pool.step e
  match pool.frees[s.pool.frees.length]? with
  | none => ok { s with pool := pool }
  | some arg => do
      s.free arg
      ok { s with pool := pool }

def step (s : Epoll) : EpollEvent → Outcome Epoll
  | .wait fds => s.wait fds
  | .take => s.take
  | .add => s.add
  | .back => s.back
  | .pool e => s.poolStep e
  | .readFd w => s.readFd w
  | .recvdata w received => s.recvdata w received
  | .readFdAgain w => s.readFdAgain w
  | .senddata w => s.senddata w

end Epoll

end SafeTransmission
