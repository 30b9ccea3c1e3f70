import SafeTransmission.Library.Threads
import SafeTransmission.Pool.Threadpool

/-!
# What a step of the thread pool can do

`Acts` lists the branches of the threads, each with its guard and the state behind it.
Every step is one of them (`acts_of_act`), so what is shown of the pool is shown by cases
on `Acts`, and no proof looks into the functions again.

## Strategy

* Guards that several branches share have names: `Tests` for a worker and `InCall` for a call that
  take the lock, `Reads` for what they find in `shutdown`, `Signals` for whom a signal wakes.
* There is one lemma for each function (`acts_of_testQueue`, `acts_of_addTask`,
  `acts_of_adjustThread` and so on).  Only these unfold the definitions.
* In a section that contains the store of `shutdown`, the thread has read the old value.
  `insideAfter` says when that section ends.
-/

namespace SafeTransmission

open Outcome

/-- The worker takes the lock next and tests the queue. -/
def ThreadPhase.isTesting : ThreadPhase → Bool
  | starting | woken => true
  | _ => false

namespace Threadpool

/-- A signal for `queue_not_empty` wakes one worker that waits, if there is one. -/
inductive Signals (workers : List ThreadPhase) : List ThreadPhase → Prop where
  | nobody : (∀ phase ∈ workers, phase ≠ .waiting) → Signals workers workers
  | woken (w : ℕ) : workers[w]? = some .waiting → Signals workers (workers.set w .woken)

/-- A worker that has the lock and tests the queue. -/
def Tests (s : Threadpool) (e : PoolEvent) (w : ℕ) : Prop :=
  e = .enter w ∧ s.workers[w]? = some .starting ∨ e = .resume w ∧ s.workers[w]? = some .woken

/-- What a thread reads of `shutdown` in a critical section that ends now. -/
def Reads (s : Threadpool) (holder : Holder) (shutdown : Bool) : Prop :=
  s.inside = none ∧ shutdown = s.shutdown ∨ s.inside = some holder ∧ shutdown = false

/-- A step that enqueues without the lock, or with the lock when it has not found the pool shut
down and there is room. -/
def Enqueues (s : Threadpool) (task : Task) : PoolEvent → Prop
  | .add p _ => s.Reads (.call p) false ∧ s.queue.size ≠ s.queue.capacity ∧
      s.addingTask p = some task
  | .goOn p _ => s.calls[p]? = some ⟨task, .unlocked⟩
  | _ => False

/-- A call gives the lock back because it has found the pool shut down. -/
def Unlocks (s : Threadpool) (p : ℕ) : PoolEvent → Prop
  | .add q _ => q = p ∧ s.addingTask p ≠ none ∧ s.Reads (.call p) true
  | _ => False

/-- The critical section of a thread ends with its step. -/
def insideAfter (s : Threadpool) : PoolEvent → Option Holder
  | .enter _ | .resume _ | .add _ _ => none
  | _ => s.inside

/-- `adjust_thread` is about to create threads. -/
def Growing (s : Threadpool) : Prop :=
  ∃ queueSize liveThrNum busyThrNum, s.adjust = .growing queueSize liveThrNum busyThrNum ∧
    minWaitTaskNum ≤ queueSize ∧ liveThrNum < s.maxThrNum

/-- The step is one of the call, from the phase that it is in. -/
def Turns (s : Threadpool) (p : ℕ) : PoolEvent → Prop
  | .add q _ => q = p ∧ s.addingTask p ≠ none
  | .wakeCall q => q = p ∧ ∃ task, s.calls[p]? = some ⟨task, .waiting⟩
  | .goOn q _ => q = p ∧ ∃ task, s.calls[p]? = some ⟨task, .unlocked⟩
  | _ => False

/-- A call for the task that has not returned. -/
def InCall (s : Threadpool) (p : ℕ) (task : Task) : Prop :=
  ∃ phase, s.calls[p]? = some ⟨task, phase⟩ ∧ phase ≠ .returned

/-- The branches of the threads. -/
inductive Acts (s : Threadpool) : PoolEvent → Threadpool → Prop where
  | created (i : ℕ) : s.creating = some i → (i : ℤ) < s.minThrNum → i < s.threads.length →
      Acts s .create { s.createThread i with creating := some (i + 1) }
  | returned (i : ℕ) : s.creating = some i → ¬(i : ℤ) < s.minThrNum →
      Acts s .create { s with creating := none }
  -- workers
  | waits (e : PoolEvent) (w : ℕ) (n : ℤ) : s.Tests e w → s.queue.size = 0 →
      s.Reads (.worker w) false →
      Acts s e { s with workers := s.workers.set w .waiting, waitExitThrNum := n, inside := none }
  | leaves (e : PoolEvent) (w : ℕ) (n : ℤ) : s.Tests e w → s.Reads (.worker w) true →
      Acts s e { s with workers := s.workers.set w .exiting, waitExitThrNum := n, inside := none }
  | dequeues (e : PoolEvent) (w : ℕ) (n : ℤ) (task : Task) : s.Tests e w → s.queue.size ≠ 0 →
      s.Reads (.worker w) false → s.queue.slots[s.queue.front]? = some task →
      Acts s e { s with
        workers := s.workers.set w (.dequeued s.dequeued.length task)
        waitExitThrNum := n
        inside := none
        queue := s.queue.pop
        calls := s.calls.map AddCall.wake
        dequeued := s.dequeued ++ [task] }
  | retires (w : ℕ) (shutdown : Bool) : s.workers[w]? = some .woken → 0 < s.waitExitThrNum →
      s.minThrNum < s.liveThrNum → s.Reads (.worker w) shutdown →
      Acts s (.resume w) { s with
        workers := s.workers.set w .exiting
        waitExitThrNum := s.waitExitThrNum - 1
        liveThrNum := s.liveThrNum - 1
        inside := none }
  | wakesUp (w : ℕ) : s.workers[w]? = some .waiting →
      Acts s (.wakeUp w) { s with workers := s.workers.set w .woken }
  | startsWorking (w k : ℕ) (task : Task) : s.workers[w]? = some (.dequeued k task) →
      Acts s (.startWorking w) { s with
        workers := s.workers.set w (.running k task)
        busyThrNum := s.busyThrNum + 1
        started := s.started ++ [k] }
  | finishes (w k : ℕ) (task : Task) : s.workers[w]? = some (.running k task) →
      Acts s (.finish w) { s with
        workers := s.workers.set w (.finished k task)
        finished := s.finished ++ [k] }
  | endsWorking (w k : ℕ) (task : Task) : s.workers[w]? = some (.finished k task) →
      Acts s (.endWorking w) { s with
        workers := s.workers.set w .starting
        busyThrNum := s.busyThrNum - 1 }
  | exits (w : ℕ) : s.workers[w]? = some .exiting →
      Acts s (.exit w) { s with workers := s.workers.set w .terminated }
  -- calls of `threadpool_add`
  | calls (task : Task) : s.creating = none →
      Acts s (.call task) { s with calls := s.calls ++ [⟨task, .entering⟩] }
  | moves (e : PoolEvent) (p : ℕ) (call : AddCall) : (call.phase = .unlocked → s.Unlocks p e) →
      (call.phase = .waiting → s.queue.size = s.queue.capacity) → s.InCall p call.task →
      call.phase ≠ .returned → s.Turns p e →
      Acts s e { s with calls := s.calls.set p call, inside := s.insideAfter e }
  | enqueues (e : PoolEvent) (p : ℕ) (task old : Task) (workers : List ThreadPhase) :
      s.Enqueues task e → s.queue.slots[s.queue.rear]? = some old → Signals s.workers workers →
      s.InCall p task → s.Turns p e →
      Acts s e { s with
        inside := s.insideAfter e
        calls := s.calls.set p ⟨task, .returned⟩
        workers := workers
        queue := s.queue.push task
        added := s.added ++ [task]
        frees := s.frees ++ old.arg.toList }
  -- `adjust_thread`
  | adjusts (target : Option ℕ) (phase : AdjustPhase) : s.adjust ≠ .ended → s.creating = none →
      Acts s (.adjust target) { s with adjust := phase }
  | grows (target : Option ℕ) (phase : AdjustPhase) : s.Growing → s.adjust ≠ .ended →
      s.creating = none →
      Acts s (.adjust target) (grow s.threads.length 0 0 { s with adjust := phase })
  | shrinks (target : Option ℕ) (phase : AdjustPhase) (n : ℤ) : s.adjust ≠ .ended →
      s.creating = none →
      Acts s (.adjust target) { s with waitExitThrNum := n, adjust := phase }
  | signals (target : Option ℕ) (phase : AdjustPhase) (workers : List ThreadPhase) :
      s.adjust ≠ .ended → s.creating = none → Signals s.workers workers →
      Acts s (.adjust target) { s with adjust := phase, workers := workers }
  -- `threadpool_destroy`
  | shutsDownInside (holder : Holder) : s.destroy = .uncalled → s.creating = none →
      s.MayHold holder →
      Acts s (.shutDownInside holder)
        { s with shutdown := true, inside := some holder, destroy := .joiningAdjust }
  | shutsDown : s.destroy = .uncalled → s.creating = none →
      Acts s .destroy { s with shutdown := true, destroy := .joiningAdjust }
  | joinsAdjust : s.destroy = .joiningAdjust → s.adjust = .ended →
      Acts s .destroy { s with destroy := .broadcasting 0 }
  | broadcasts (i : ℕ) : s.destroy = .broadcasting i →
      Acts s .destroy { s with
        workers := s.workers.map ThreadPhase.wake
        destroy := .broadcasting (i + 1) }
  | endsBroadcasts (i : ℕ) : s.destroy = .broadcasting i →
      Acts s .destroy { s with destroy := .joining 0 }
  | joins (i w : ℕ) : s.destroy = .joining i → s.threads[i]? = some (some w) →
      s.workers[w]? = some .terminated →
      Acts s .destroy { s with destroy := .joining (i + 1) }
  | frees (i : ℕ) : s.destroy = .joining i → ¬(i : ℤ) < s.liveThrNum →
      Acts s .destroy { s with destroy := .freeing }
  | freesPool : s.destroy = .freeing → ¬s.SomeoneWaits → Acts s .destroy { s with destroy := .freed }

variable {s s' : Threadpool}

theorem Signals.forall_mem {workers workers' : List ThreadPhase} (h : Signals workers workers')
    {P : ThreadPhase → Prop} (hall : ∀ phase ∈ workers, P phase) (hwoken : P .woken) :
    ∀ phase ∈ workers', P phase := by
  cases h with
  | nobody => exact hall
  | woken w => exact forall_mem_set hall hwoken w

theorem Signals.filterMap_eq {workers workers' : List ThreadPhase} (h : Signals workers workers')
    {β : Type} {f : ThreadPhase → Option β} (hf : f .woken = f .waiting) :
    workers'.filterMap f = workers.filterMap f := by
  cases h with
  | nobody => rfl
  | woken w hw => exact filterMap_set_of_eq hw hf

theorem Tests.exists_phase {e : PoolEvent} {w : ℕ} (h : s.Tests e w) :
    ∃ phase, s.workers[w]? = some phase ∧ phase.isTesting = true := by
  rcases h with ⟨-, hw⟩ | ⟨-, hw⟩
  · exact ⟨.starting, hw, rfl⟩
  · exact ⟨.woken, hw, rfl⟩

/-- Before the shutdown every section finds the pool running. -/
theorem Reads.of_running {holder : Holder} {shutdown : Bool} (h : s.Reads holder shutdown)
    (hrunning : s.shutdown = false) : shutdown = false := by
  rcases h with ⟨-, hreads⟩ | ⟨-, hreads⟩
  · exact hreads.trans hrunning
  · exact hreads

theorem Reads.shutdown {holder : Holder} (h : s.Reads holder true) : s.shutdown = true := by
  rcases h with ⟨-, hreads⟩ | ⟨-, hreads⟩
  · exact hreads.symm
  · cases hreads

/-- A section that has not found the pool shut down, where it is, contains the store. -/
theorem Reads.inside {holder : Holder} (h : s.Reads holder false) (hshutdown : s.shutdown = true) :
    s.inside = some holder := by
  rcases h with ⟨-, hreads⟩ | ⟨hinside, -⟩
  · cases hreads.trans hshutdown
  · exact hinside

/-! ## One lemma for each function -/

theorem without_inside (h : s.inside = none) : { s with inside := none } = s := by
  cases s
  cases h
  rfl

theorem addingTask_eq_some {p : ℕ} {task : Task} : s.addingTask p = some task ↔
    s.calls[p]? = some ⟨task, .entering⟩ ∨ s.calls[p]? = some ⟨task, .woken⟩ := by
  unfold addingTask
  split
  · rename_i other hcall
    simp [hcall]
  · rename_i other hcall
    simp [hcall]
  · rename_i hentering hwoken
    simp only [reduceCtorEq, false_iff, not_or]
    exact ⟨hentering task, hwoken task⟩

theorem takeLock_eq_ok {holder : Holder} {x : Bool × Threadpool} (h : s.takeLock holder = ok x) :
    s.Reads holder x.1 ∧ x.2 = { s with inside := none } := by
  unfold takeLock at h
  cases hinside : s.inside with
  | none =>
      rw [hinside] at h
      cases h
      exact ⟨Or.inl ⟨hinside, rfl⟩, (without_inside hinside).symm⟩
  | some owner =>
      simp only [hinside] at h
      split at h
      · rename_i hsame
        cases h
        exact ⟨Or.inr ⟨hsame ▸ hinside, rfl⟩, rfl⟩
      · cases h

theorem acts_of_testQueue {e : PoolEvent} {w : ℕ} {n : ℤ} {shutdown : Bool} (htests : s.Tests e w)
    (hreads : s.Reads (.worker w) shutdown)
    (h : testQueue { s with inside := none, waitExitThrNum := n } shutdown w = ok s') :
    s.Acts e s' := by
  unfold testQueue at h
  split at h
  · rename_i hempty
    cases h
    exact .waits e w n htests hempty.1 (hempty.2 ▸ hreads)
  · rename_i hnot
    split at h
    · rename_i hshutdown
      cases h
      exact .leaves e w n htests (hshutdown ▸ hreads)
    · rename_i hrunning
      have hrunning : shutdown = false := Bool.eq_false_of_not_eq_true hrunning
      split at h
      · cases h
      · rename_i task hslot
        cases h
        exact .dequeues e w n task htests (fun hsize => hnot ⟨hsize, hrunning⟩) (hrunning ▸ hreads)
          hslot

theorem acts_of_enter {w : ℕ} (h : s.enter w = ok s') : s.Acts (.enter w) s' := by
  obtain ⟨hphase, h⟩ := require_bind_eq_ok.mp h
  obtain ⟨⟨shutdown, s₁⟩, hlock, h⟩ := bind_eq_ok.mp h
  obtain ⟨hreads, hs₁⟩ := takeLock_eq_ok hlock
  obtain rfl : s₁ = { s with inside := none } := hs₁
  exact acts_of_testQueue (Or.inl ⟨rfl, hphase⟩) hreads h

theorem acts_of_resume {w : ℕ} (h : s.resume w = ok s') : s.Acts (.resume w) s' := by
  obtain ⟨hphase, h⟩ := require_bind_eq_ok.mp h
  obtain ⟨⟨shutdown, s₁⟩, hlock, h⟩ := bind_eq_ok.mp h
  obtain ⟨hreads, hs₁⟩ := takeLock_eq_ok hlock
  obtain rfl : s₁ = { s with inside := none } := hs₁
  dsimp only at h
  split at h
  · rename_i hexit
    split at h
    · rename_i hlive
      cases h
      exact .retires w shutdown hphase hexit hlive hreads
    · exact acts_of_testQueue (Or.inr ⟨rfl, hphase⟩) hreads h
  · exact acts_of_testQueue (Or.inr ⟨rfl, hphase⟩) hreads h

theorem signals_of_signal {target : Option ℕ} (h : s.signal target = ok s') :
    ∃ workers, Signals s.workers workers ∧ s' = { s with workers := workers } := by
  cases target with
  | none =>
      obtain ⟨hnobody, h⟩ := require_bind_eq_ok.mp h
      cases h
      exact ⟨s.workers, .nobody hnobody, rfl⟩
  | some w =>
      obtain ⟨hwaiting, h⟩ := require_bind_eq_ok.mp h
      cases h
      exact ⟨_, .woken w hwaiting, rfl⟩

theorem enqueue_eq {p : ℕ} {task : Task} {target : Option ℕ}
    (h : (s.setCall p ⟨task, .returned⟩).enqueue task target = ok s') :
    ∃ old workers, s.queue.slots[s.queue.rear]? = some old ∧ Signals s.workers workers ∧
      s' = { s with
        calls := s.calls.set p ⟨task, .returned⟩
        workers := workers
        queue := s.queue.push task
        added := s.added ++ [task]
        frees := s.frees ++ old.arg.toList } := by
  unfold enqueue at h
  split at h
  · cases h
  · rename_i old hslot
    obtain ⟨workers, hsignals, rfl⟩ := signals_of_signal h
    exact ⟨old, workers, hslot, hsignals, rfl⟩

theorem inCall_of_adding {p : ℕ} {task : Task} (h : s.addingTask p = some task) : s.InCall p task := by
  rcases addingTask_eq_some.mp h with hcall | hcall
  · exact ⟨.entering, hcall, by simp⟩
  · exact ⟨.woken, hcall, by simp⟩

theorem acts_of_addTask {p : ℕ} {task : Task} {target : Option ℕ} {shutdown : Bool}
    (hcall : s.addingTask p = some task) (hreads : s.Reads (.call p) shutdown)
    (h : addTask { s with inside := none } shutdown p task target = ok s') :
    s.Acts (.add p target) s' := by
  have hin := inCall_of_adding hcall
  have hturns : s.Turns p (.add p target) := ⟨rfl, by simp [hcall]⟩
  unfold addTask at h
  split at h
  · rename_i hfull
    cases h
    exact .moves _ p ⟨task, .waiting⟩ (by simp) (fun _ => hfull.1) hin (by simp) hturns
  · rename_i hnot
    split at h
    · rename_i hshutdown
      cases h
      have hunlocks : s.Unlocks p (.add p target) := ⟨rfl, by simp [hcall], hshutdown ▸ hreads⟩
      exact .moves _ p ⟨task, .unlocked⟩ (fun _ => hunlocks) (by simp) hin (by simp) hturns
    · rename_i hrunning
      have hrunning : shutdown = false := Bool.eq_false_of_not_eq_true hrunning
      obtain ⟨old, workers, hslot, hsignals, rfl⟩ := enqueue_eq h
      exact .enqueues _ p task old workers
        ⟨hrunning ▸ hreads, fun hsize => hnot ⟨hsize, hrunning⟩, hcall⟩ hslot hsignals hin hturns

theorem acts_of_add {p : ℕ} {target : Option ℕ} (h : s.add p target = ok s') :
    s.Acts (.add p target) s' := by
  unfold add at h
  split at h
  · cases h
  · rename_i task hcall
    obtain ⟨⟨shutdown, s₁⟩, hlock, h⟩ := bind_eq_ok.mp h
    obtain ⟨hreads, hs₁⟩ := takeLock_eq_ok hlock
    obtain rfl : s₁ = { s with inside := none } := hs₁
    exact acts_of_addTask hcall hreads h

theorem acts_of_wakeCall {p : ℕ} (h : s.wakeCall p = ok s') : s.Acts (.wakeCall p) s' := by
  unfold wakeCall at h
  split at h
  · rename_i task hcall
    cases h
    exact .moves _ p ⟨task, .woken⟩ (by simp) (by simp) ⟨.waiting, hcall, by simp⟩ (by simp)
      ⟨rfl, task, hcall⟩
  · cases h

theorem acts_of_goOn {p : ℕ} {target : Option ℕ} (h : s.goOn p target = ok s') :
    s.Acts (.goOn p target) s' := by
  unfold goOn at h
  split at h
  · rename_i task hcall
    obtain ⟨old, workers, hslot, hsignals, rfl⟩ := enqueue_eq h
    exact .enqueues (.goOn p target) p task old workers hcall hslot hsignals
      ⟨.unlocked, hcall, by simp⟩ ⟨rfl, task, hcall⟩
  · cases h

theorem acts_of_create (h : s.create = ok s') : s.Acts .create s' := by
  unfold create at h
  split at h
  · cases h
  · rename_i i hi
    split at h
    · rename_i hmin
      split at h
      · rename_i hslot
        cases h
        exact .created i hi hmin hslot
      · cases h
    · rename_i hmin
      cases h
      exact .returned i hi hmin

theorem acts_of_startWorking {w : ℕ} (h : s.startWorking w = ok s') :
    s.Acts (.startWorking w) s' := by
  unfold startWorking at h
  split at h
  · rename_i k task hphase
    cases h
    exact .startsWorking w k task hphase
  · cases h

theorem acts_of_finish {w : ℕ} (h : s.finish w = ok s') : s.Acts (.finish w) s' := by
  unfold finish at h
  split at h
  · rename_i k task hphase
    cases h
    exact .finishes w k task hphase
  · cases h

theorem acts_of_endWorking {w : ℕ} (h : s.endWorking w = ok s') : s.Acts (.endWorking w) s' := by
  unfold endWorking at h
  split at h
  · rename_i k task hphase
    cases h
    exact .endsWorking w k task hphase
  · cases h

theorem acts_of_adjustThread {target : Option ℕ} (h : s.adjustThread target = ok s') :
    s.Acts (.adjust target) s' := by
  obtain ⟨hcreating, h⟩ := require_bind_eq_ok.mp h
  cases hphase : s.adjust with
  | ended =>
      rw [hphase] at h
      cases h
  | testing =>
      rw [hphase] at h
      cases h
      exact .adjusts target _ (by simp [hphase]) hcreating
  | sleeping =>
      rw [hphase] at h
      obtain ⟨-, h⟩ := require_bind_eq_ok.mp h
      cases h
      exact .adjusts target _ (by simp [hphase]) hcreating
  | sampled queueSize liveThrNum =>
      rw [hphase] at h
      cases h
      exact .adjusts target _ (by simp [hphase]) hcreating
  | growing queueSize liveThrNum busyThrNum =>
      rw [hphase] at h
      dsimp only at h
      split at h
      · rename_i hneeded
        obtain ⟨-, h⟩ := require_bind_eq_ok.mp h
        cases h
        exact .grows target _ ⟨_, _, _, hphase, hneeded⟩ (by simp [hphase]) hcreating
      · cases h
        exact .adjusts target _ (by simp [hphase]) hcreating
  | shrinking liveThrNum busyThrNum =>
      rw [hphase] at h
      dsimp only at h
      split at h
      · obtain ⟨-, h⟩ := require_bind_eq_ok.mp h
        cases h
        exact .shrinks target _ _ (by simp [hphase]) hcreating
      · cases h
        exact .adjusts target _ (by simp [hphase]) hcreating
  | signalling left =>
      rw [hphase] at h
      cases left with
      | zero =>
          cases h
          exact .adjusts target _ (by simp [hphase]) hcreating
      | succ left =>
          obtain ⟨workers, hsignals, rfl⟩ := signals_of_signal h
          exact .signals target _ workers (by simp [hphase]) hcreating hsignals

theorem acts_of_destroyStep (h : s.destroyStep = ok s') : s.Acts .destroy s' := by
  unfold destroyStep at h
  cases hphase : s.destroy with
  | uncalled =>
      rw [hphase] at h
      obtain ⟨hcreating, h⟩ := require_bind_eq_ok.mp h
      cases h
      exact .shutsDown hphase hcreating
  | joiningAdjust =>
      rw [hphase] at h
      obtain ⟨hended, h⟩ := require_bind_eq_ok.mp h
      cases h
      exact .joinsAdjust hphase hended
  | broadcasting i =>
      rw [hphase] at h
      dsimp only at h
      split at h
      · cases h
        exact .broadcasts i hphase
      · cases h
        exact .endsBroadcasts i hphase
  | joining i =>
      rw [hphase] at h
      dsimp only at h
      split at h
      · split at h
        · rename_i w hslot
          obtain ⟨hterminated, h⟩ := require_bind_eq_ok.mp h
          cases h
          exact .joins i w hphase hslot hterminated
        · cases h
      · rename_i hend
        cases h
        exact .frees i hphase hend
  | freeing =>
      rw [hphase] at h
      dsimp only at h
      split at h
      · cases h
      · rename_i hnobody
        cases h
        exact .freesPool hphase hnobody
  | freed =>
      rw [hphase] at h
      cases h

theorem acts_of_shutDownInside {holder : Holder} (h : s.shutDownInside holder = ok s') :
    s.Acts (.shutDownInside holder) s' := by
  obtain ⟨⟨huncalled, hcreating, hholds⟩, h⟩ := require_bind_eq_ok.mp h
  cases h
  exact .shutsDownInside holder huncalled hcreating hholds

/-! ## All steps -/

theorem acts_of_act {e : PoolEvent} (h : s.act e = ok s') : s.Acts e s' := by
  cases e with
  | create => exact acts_of_create h
  | enter w => exact acts_of_enter h
  | wakeUp w =>
      obtain ⟨hphase, h⟩ := require_bind_eq_ok.mp h
      cases h
      exact .wakesUp w hphase
  | resume w => exact acts_of_resume h
  | startWorking w => exact acts_of_startWorking h
  | finish w => exact acts_of_finish h
  | endWorking w => exact acts_of_endWorking h
  | exit w =>
      obtain ⟨hphase, h⟩ := require_bind_eq_ok.mp h
      cases h
      exact .exits w hphase
  | call task =>
      obtain ⟨hcreating, h⟩ := require_bind_eq_ok.mp h
      cases h
      exact .calls task hcreating
  | add p target => exact acts_of_add h
  | wakeCall p => exact acts_of_wakeCall h
  | goOn p target => exact acts_of_goOn h
  | adjust target => exact acts_of_adjustThread h
  | destroy => exact acts_of_destroyStep h
  | shutDownInside holder => exact acts_of_shutDownInside h

/-- A step that is defined is one on a pool that is there, or does not use it. -/
theorem acts_of_step {e : PoolEvent} (h : s.step e = ok s') :
    s.Acts e s' ∧ ¬(s.destroy = .freed ∧ e.usesPool = true) := by
  obtain ⟨s₁, hact, h⟩ := bind_eq_ok.mp h
  split at h
  · cases h
  · rename_i hthere
    cases h
    exact ⟨acts_of_act hact, hthere⟩

theorem step_of_act {e : PoolEvent} (h : s.act e = ok s') (hthere : s.destroy ≠ .freed) :
    s.step e = ok s' := by
  rw [step, h, ok_bind, if_neg fun hfreed => hthere hfreed.1]

theorem takeLock_of_reads {holder : Holder} {shutdown : Bool} (h : s.Reads holder shutdown) :
    s.takeLock holder = ok (shutdown, { s with inside := none }) := by
  unfold takeLock
  rcases h with ⟨hinside, rfl⟩ | ⟨hinside, rfl⟩
  · rw [hinside, without_inside hinside]
  · simp only [hinside, reduceIte]

theorem takeLock_of_none {holder : Holder} (h : s.inside = none) :
    s.takeLock holder = ok (s.shutdown, s) := by
  rw [takeLock, h]

/-- A step that enqueues a task takes no other branch. -/
theorem act_of_enqueues {e : PoolEvent} {task : Task} (h : s.Enqueues task e) :
    ∃ p target, s.act e =
      (setCall { s with inside := s.insideAfter e } p ⟨task, .returned⟩).enqueue task target := by
  cases e with
  | add p target =>
      obtain ⟨hreads, hsize, hcall⟩ := h
      refine ⟨p, target, ?_⟩
      simp only [act, add, hcall, takeLock_of_reads hreads, ok_bind]
      rw [addTask, if_neg fun hfull => hsize hfull.1, if_neg Bool.false_ne_true]
      rfl
  | goOn p target =>
      refine ⟨p, target, ?_⟩
      rw [act, goOn, show s.calls[p]? = some ⟨task, .unlocked⟩ from h]
      rfl
  | _ => exact h.elim

theorem eq_of_enqueues {e : PoolEvent} {task : Task} (h : s.Enqueues task e)
    (hstep : s.step e = ok s') :
    ∃ p old workers, s.queue.slots[s.queue.rear]? = some old ∧ Signals s.workers workers ∧
      s' = { s with
        inside := s.insideAfter e
        calls := s.calls.set p ⟨task, .returned⟩
        workers := workers
        queue := s.queue.push task
        added := s.added ++ [task]
        frees := s.frees ++ old.arg.toList } := by
  obtain ⟨p, target, hact⟩ := act_of_enqueues h
  obtain ⟨s₁, hs₁, hstep⟩ := bind_eq_ok.mp hstep
  split at hstep
  · cases hstep
  · cases hstep
    exact ⟨p, enqueue_eq (hact.symm.trans hs₁)⟩

/-! ## Threads that are created later -/

/-- What every thread that `adjust_thread` creates keeps, the whole loop keeps. -/
theorem grow_keeps (P : Threadpool → Prop)
    (hP : ∀ s i, P s → s.slotFree i = true → s.liveThrNum < s.maxThrNum →
      P { s.createThread i with liveThrNum := s.liveThrNum + 1 })
    (left i add : ℕ) (hs : P s) : P (grow left i add s) := by
  induction left generalizing i add s with
  | zero => exact hs
  | succ left ih =>
      rw [grow]
      split
      · rename_i hroom
        split
        · rename_i hfree
          exact ih _ _ (hP s i hs hfree hroom.2)
        · exact ih _ _ hs
      · exact hs

theorem grow_eq {α : Type} (f : Threadpool → α)
    (hf : ∀ (s : Threadpool) (i : ℕ), f { s.createThread i with liveThrNum := s.liveThrNum + 1 } = f s)
    (left i add : ℕ) (s : Threadpool) : f (grow left i add s) = f s :=
  grow_keeps (fun s' => f s' = f s) (fun s' j hs' _ _ => (hf s' j).trans hs') left i add rfl

/-! ## After the shutdown -/

/-- Only `threadpool_destroy` sets `shutdown`. -/
theorem shutdown_eq_of_acts {e : PoolEvent} (hact : s.Acts e s') (he : e.byDestroy = false) :
    s'.shutdown = s.shutdown := by
  cases hact with
  | grows target phase => exact grow_eq Threadpool.shutdown (fun _ _ => rfl) _ _ _ _
  | shutsDown | shutsDownInside => cases he
  | _ => rfl

theorem destroy_eq_of_acts {e : PoolEvent} (hact : s.Acts e s') (he : e.byDestroy = false) :
    s'.destroy = s.destroy := by
  cases hact with
  | grows target phase => exact grow_eq Threadpool.destroy (fun _ _ => rfl) _ _ _ _
  | shutsDown | shutsDownInside | joinsAdjust | broadcasts | endsBroadcasts | joins | frees
  | freesPool => cases he
  | _ => rfl

theorem shutdown_of_acts {e : PoolEvent} (hact : s.Acts e s') (h : s'.shutdown = false) :
    s.shutdown = false := by
  cases hact with
  | grows target phase =>
      rwa [grow_eq Threadpool.shutdown fun _ _ => rfl] at h
  | shutsDown | shutsDownInside => cases h
  | _ => exact h

theorem Unlocks.shutdown {p : ℕ} {e : PoolEvent} (h : s.Unlocks p e) : s.shutdown = true := by
  cases e with
  | add q target => exact h.2.2.shutdown
  | _ => exact h.elim

theorem insideAfter_eq_or (s : Threadpool) (e : PoolEvent) :
    s.insideAfter e = none ∨ s.insideAfter e = s.inside := by
  unfold insideAfter
  split
  · exact Or.inl rfl
  · exact Or.inl rfl
  · exact Or.inl rfl
  · exact Or.inr rfl

/-- Only the store of `shutdown` finds a thread inside. -/
theorem inside_of_acts {e : PoolEvent} (hact : s.Acts e s') (he : e.byDestroy = false)
    (h : s.inside = none) : s'.inside = none := by
  cases hact with
  | grows target phase =>
      rw [grow_eq Threadpool.inside fun _ _ => rfl]
      exact h
  | shutsDownInside => cases he
  | moves | enqueues => exact (insideAfter_eq_or s e).elim id fun hsame => hsame.trans h
  | waits | leaves | dequeues | retires => rfl
  | _ => exact h

end Threadpool

end SafeTransmission
