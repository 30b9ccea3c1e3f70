import SafeTransmission.Library.Progress
import SafeTransmission.Pool.Accounting

/-!
# The work of the threads

Work is what the workers and the calls of `threadpool_add` that are there do by
themselves.  Before a shutdown, and while no worker is to exit, it is one of the branches
in `Works`, and each of them makes a potential of the pool smaller
(`Works.potential_lt`).

Left out are the steps in which a thread wakes up without a signal, and those of `adjust_thread`,
which stands still.
-/

namespace SafeTransmission

open Outcome

/-- A step of a worker or of a call that is there, and no wake-up without a signal. -/
def PoolEvent.isWork : PoolEvent → Bool
  | enter _ | resume _ | startWorking _ | finish _ | endWorking _ | exit _ | add _ _ => true
  | _ => false

/-- What is left to do until the worker waits, if it finds no task. -/
def ThreadPhase.rank : ThreadPhase → ℕ
  | waiting | terminated => 0
  | exiting => 1
  | starting | woken => 2
  | finished _ _ => 3
  | running _ _ => 4
  | dequeued _ _ => 5

/-- A call that waits is woken at most once for each task that is taken. -/
def CallPhase.rank : CallPhase → ℕ
  | returned | unlocked => 0
  | waiting => 3
  | entering | woken => 4

/-- The call takes the lock next and tests the queue. -/
def CallPhase.isTesting : CallPhase → Bool
  | entering | woken => true
  | _ => false

/-- The call has not returned. -/
def AddCall.isOpen (call : AddCall) : Bool :=
  call.phase ≠ .returned

namespace Threadpool

variable {s s' : Threadpool} {e : PoolEvent} {initial : List Task}

/-- The tasks that are in the queue or come into it. -/
def openTasks (s : Threadpool) : ℕ :=
  s.queue.size.toNat + s.calls.countP AddCall.isOpen

/-- A bound for the steps that are left.  A task that is taken may wake every call. -/
def potential (s : Threadpool) : ℕ :=
  (s.calls.length + 4) * s.openTasks + (s.calls.map fun call => call.phase.rank).sum +
    (s.workers.map ThreadPhase.rank).sum

/-! ## What work does -/

/-- The call has the lock, and has not put its task into the queue. -/
def Adds (s : Threadpool) (p : ℕ) (task : Task) : Prop :=
  ∃ phase : CallPhase, s.calls[p]? = some ⟨task, phase⟩ ∧ phase.isTesting = true

/-- The branches of workers and calls while the pool is not shut down and no worker is to
exit. -/
inductive Works (s : Threadpool) : PoolEvent → Threadpool → Prop where
  | waits (e : PoolEvent) (w : ℕ) : s.Tests e w → s.queue.size = 0 →
      Works s e { s with workers := s.workers.set w .waiting }
  | dequeues (e : PoolEvent) (w : ℕ) (task : Task) : s.Tests e w → s.queue.size ≠ 0 →
      Works s e { s with
        workers := s.workers.set w (.dequeued s.dequeued.length task)
        queue := s.queue.pop
        calls := s.calls.map AddCall.wake
        dequeued := s.dequeued ++ [task] }
  | startsWorking (w k : ℕ) (task : Task) : s.workers[w]? = some (.dequeued k task) →
      Works s (.startWorking w) { s with
        workers := s.workers.set w (.running k task)
        busyThrNum := s.busyThrNum + 1
        started := s.started ++ [k] }
  | finishes (w k : ℕ) (task : Task) : s.workers[w]? = some (.running k task) →
      Works s (.finish w) { s with
        workers := s.workers.set w (.finished k task)
        finished := s.finished ++ [k] }
  | endsWorking (w k : ℕ) (task : Task) : s.workers[w]? = some (.finished k task) →
      Works s (.endWorking w) { s with
        workers := s.workers.set w .starting
        busyThrNum := s.busyThrNum - 1 }
  | exits (w : ℕ) : s.workers[w]? = some .exiting →
      Works s (.exit w) { s with workers := s.workers.set w .terminated }
  | blocks (p : ℕ) (target : Option ℕ) (task : Task) : s.Adds p task →
      s.queue.size = s.queue.capacity →
      Works s (.add p target) { s with calls := s.calls.set p ⟨task, .waiting⟩ }
  | enqueues (p : ℕ) (target : Option ℕ) (task old : Task) (workers : List ThreadPhase) :
      s.Adds p task → s.queue.size ≠ s.queue.capacity → Signals s.workers workers →
      Works s (.add p target) { s with
        calls := s.calls.set p ⟨task, .returned⟩
        workers := workers
        queue := s.queue.push task
        added := s.added ++ [task]
        frees := s.frees ++ old.arg.toList }

theorem works_of_testQueue {w : ℕ} (htests : s.Tests e w)
    (h : s.testQueue false w = ok s') : s.Works e s' := by
  unfold testQueue at h
  split at h
  · rename_i hempty
    cases h
    exact .waits e w htests hempty.1
  · rename_i hnot
    rw [if_neg Bool.false_ne_true] at h
    split at h
    · cases h
    · rename_i task hslot
      cases h
      exact .dequeues e w task htests fun hsize => hnot ⟨hsize, rfl⟩

theorem works_of_addTask {p : ℕ} {task : Task} {target : Option ℕ} (hadds : s.Adds p task)
    (h : s.addTask false p task target = ok s') :
    s.Works (.add p target) s' := by
  unfold addTask at h
  split at h
  · rename_i hfull
    cases h
    exact .blocks p target task hadds hfull.1
  · rename_i hnot
    rw [if_neg Bool.false_ne_true] at h
    obtain ⟨old, workers, -, hsignals, rfl⟩ := enqueue_eq h
    exact .enqueues p target task old workers hadds (fun hsize => hnot ⟨hsize, rfl⟩) hsignals

theorem adds_of_addingTask {p : ℕ} {task : Task} (h : s.addingTask p = some task) :
    s.Adds p task := by
  rcases addingTask_eq_some.mp h with hcall | hcall
  · exact ⟨.entering, hcall, rfl⟩
  · exact ⟨.woken, hcall, rfl⟩

theorem eq_of_startWorking {w : ℕ} (h : s.startWorking w = ok s') :
    ∃ k task, s.workers[w]? = some (.dequeued k task) ∧ s' = { s with
      workers := s.workers.set w (.running k task)
      busyThrNum := s.busyThrNum + 1
      started := s.started ++ [k] } := by
  unfold startWorking at h
  split at h
  · rename_i k task hphase
    cases h
    exact ⟨k, task, hphase, rfl⟩
  · cases h

theorem eq_of_finish {w : ℕ} (h : s.finish w = ok s') :
    ∃ k task, s.workers[w]? = some (.running k task) ∧ s' = { s with
      workers := s.workers.set w (.finished k task)
      finished := s.finished ++ [k] } := by
  unfold finish at h
  split at h
  · rename_i k task hphase
    cases h
    exact ⟨k, task, hphase, rfl⟩
  · cases h

theorem eq_of_endWorking {w : ℕ} (h : s.endWorking w = ok s') :
    ∃ k task, s.workers[w]? = some (.finished k task) ∧ s' = { s with
      workers := s.workers.set w .starting
      busyThrNum := s.busyThrNum - 1 } := by
  unfold endWorking at h
  split at h
  · rename_i k task hphase
    cases h
    exact ⟨k, task, hphase, rfl⟩
  · cases h

theorem works_of_step (hrunning : s.shutdown = false) (hinside : s.inside = none) (hexit : s.waitExitThrNum ≤ 0)
    (hwork : e.isWork = true) (h : s.step e = ok s') : s.Works e s' := by
  have hlock : ∀ holder, s.takeLock holder = ok (false, s) := by
    intro holder
    rw [takeLock_of_none hinside, hrunning]
  obtain ⟨s₁, hact, h⟩ := bind_eq_ok.mp h
  split at h
  · cases h
  · cases h
    cases e with
    | enter w =>
        obtain ⟨hphase, hact⟩ := require_bind_eq_ok.mp hact
        rw [hlock, ok_bind] at hact
        exact works_of_testQueue (Or.inl ⟨rfl, hphase⟩) hact
    | resume w =>
        obtain ⟨hphase, hact⟩ := require_bind_eq_ok.mp hact
        rw [hlock, ok_bind] at hact
        dsimp only at hact
        rw [if_neg (by omega)] at hact
        exact works_of_testQueue (Or.inr ⟨rfl, hphase⟩) hact
    | startWorking w =>
        obtain ⟨k, task, hphase, rfl⟩ := eq_of_startWorking hact
        exact .startsWorking w k task hphase
    | finish w =>
        obtain ⟨k, task, hphase, rfl⟩ := eq_of_finish hact
        exact .finishes w k task hphase
    | endWorking w =>
        obtain ⟨k, task, hphase, rfl⟩ := eq_of_endWorking hact
        exact .endsWorking w k task hphase
    | exit w =>
        obtain ⟨hphase, hact⟩ := require_bind_eq_ok.mp hact
        cases hact
        exact .exits w hphase
    | add p target =>
        change s.add p target = ok s' at hact
        unfold add at hact
        split at hact
        · cases hact
        · rename_i task hcall
          rw [hlock, ok_bind] at hact
          exact works_of_addTask (adds_of_addingTask hcall) hact
    | _ => cases hwork

theorem exists_signal (s : Threadpool) : ∃ target s', s.signal target = ok s' := by
  by_cases hwaiting : ∃ w : ℕ, s.workers[w]? = some .waiting
  · obtain ⟨w, hw⟩ := hwaiting
    refine ⟨some w, s.setWorker w .woken, ?_⟩
    rw [signal, require_bind_of hw]
  · refine ⟨none, s, ?_⟩
    rw [signal, require_bind_of]
    intro phase hmem
    rintro rfl
    exact hwaiting (List.getElem?_of_mem hmem)

/-! ## Work makes the potential smaller -/

theorem Tests.exists_rank {w : ℕ} (h : s.Tests e w) :
    ∃ phase, s.workers[w]? = some phase ∧ phase.rank = 2 := by
  rcases h with ⟨-, hw⟩ | ⟨-, hw⟩
  · exact ⟨.starting, hw, rfl⟩
  · exact ⟨.woken, hw, rfl⟩

theorem Adds.exists_rank {p : ℕ} {task : Task} (h : s.Adds p task) :
    ∃ call, s.calls[p]? = some call ∧ call.phase.rank = 4 ∧ call.isOpen = true := by
  obtain ⟨phase, hp, htesting⟩ := h
  refine ⟨⟨task, phase⟩, hp, ?_⟩
  cases phase with
  | entering | woken => exact ⟨rfl, rfl⟩
  | _ => cases htesting

theorem Signals.rank_le {workers workers' : List ThreadPhase} (h : Signals workers workers') :
    (workers'.map ThreadPhase.rank).sum ≤ (workers.map ThreadPhase.rank).sum + 2 := by
  cases h with
  | nobody => exact Nat.le_add_right _ _
  | woken w hw =>
      have hsum := sum_map_set hw ThreadPhase.rank .woken
      simp only [ThreadPhase.rank] at hsum ⊢
      omega

theorem isOpen_wake (call : AddCall) : call.wake.isOpen = call.isOpen := by
  unfold AddCall.wake
  split
  · rename_i hwaiting
    simp [AddCall.isOpen, hwaiting]
  · rfl

/-- Waking a call costs one unit at most. -/
theorem rank_wake_le (call : AddCall) : call.wake.phase.rank ≤ call.phase.rank + 1 := by
  unfold AddCall.wake
  split
  · rename_i hwaiting
    simp [CallPhase.rank, hwaiting]
  · exact Nat.le_succ _

theorem sum_rank_wake_le (calls : List AddCall) :
    ((calls.map AddCall.wake).map fun call => call.phase.rank).sum ≤
      (calls.map fun call => call.phase.rank).sum + calls.length := by
  induction calls with
  | nil => exact le_rfl
  | cons call calls ih =>
      have hcall := rank_wake_le call
      simp only [List.map_cons, List.sum_cons, List.length_cons] at ih ⊢
      omega

theorem countP_wake (calls : List AddCall) :
    (calls.map AddCall.wake).countP AddCall.isOpen = calls.countP AddCall.isOpen := by
  rw [List.countP_map]
  exact List.countP_congr fun call _ => by rw [Function.comp, isOpen_wake]

theorem potential_set_lt {w : ℕ} {a b : ThreadPhase} (hw : s.workers[w]? = some a)
    (hlt : b.rank < a.rank) (hqueue : s'.queue = s.queue) (hcalls : s'.calls = s.calls)
    (hworkers : s'.workers = s.workers.set w b) : s'.potential < s.potential := by
  have hsum := sum_map_set hw ThreadPhase.rank b
  unfold potential openTasks
  rw [hqueue, hcalls, hworkers]
  omega

theorem potential_dequeue_lt {w : ℕ} {task : Task} (htests : s.Tests e w)
    (hsize : 0 < s.queue.size) :
    { s with
      workers := s.workers.set w (.dequeued s.dequeued.length task)
      queue := s.queue.pop
      calls := s.calls.map AddCall.wake
      dequeued := s.dequeued ++ [task] }.potential < s.potential := by
  obtain ⟨phase, hw, hrank⟩ := htests.exists_rank
  have hworkers := sum_map_set hw ThreadPhase.rank (.dequeued s.dequeued.length task)
  have hcalls := sum_rank_wake_le s.calls
  have hnew : (ThreadPhase.dequeued s.dequeued.length task).rank = 5 := rfl
  rw [hrank, hnew] at hworkers
  -- one task less in the queue
  obtain ⟨n, hn⟩ : ∃ n, s.queue.size.toNat = n + 1 := ⟨s.queue.size.toNat - 1, by omega⟩
  have hpop : s.queue.pop.size.toNat = n := by
    change (s.queue.size - 1).toNat = n
    omega
  unfold potential openTasks
  dsimp only
  rw [countP_wake, List.length_map, hpop, hn]
  have hpaid : (s.calls.length + 4) * (n + 1 + s.calls.countP AddCall.isOpen) =
      (s.calls.length + 4) * (n + s.calls.countP AddCall.isOpen) + (s.calls.length + 4) := by
    ring
  omega

theorem potential_block_lt {p : ℕ} {task : Task} (hadds : s.Adds p task) :
    { s with calls := s.calls.set p ⟨task, .waiting⟩ }.potential < s.potential := by
  obtain ⟨call, hp, hrank, hopen⟩ := hadds.exists_rank
  have hsum := sum_map_set hp (fun call => call.phase.rank) ⟨task, .waiting⟩
  have hcount : (s.calls.set p ⟨task, .waiting⟩).countP AddCall.isOpen =
      s.calls.countP AddCall.isOpen := countP_set_of_eq hp (by rw [hopen]; rfl)
  rw [hrank] at hsum
  unfold potential openTasks
  dsimp only
  rw [hcount, List.length_set]
  change _ + 4 = _ + 3 at hsum
  omega

theorem potential_enqueue_lt {p : ℕ} {task old : Task} {workers : List ThreadPhase}
    (hadds : s.Adds p task) (hsize : 0 ≤ s.queue.size) (hsignals : Signals s.workers workers) :
    { s with
      calls := s.calls.set p ⟨task, .returned⟩
      workers := workers
      queue := s.queue.push task
      added := s.added ++ [task]
      frees := s.frees ++ old.arg.toList }.potential < s.potential := by
  obtain ⟨call, hp, hrank, hopen⟩ := hadds.exists_rank
  have hsum := sum_map_set hp (fun call => call.phase.rank) ⟨task, .returned⟩
  have hcount : (s.calls.set p ⟨task, .returned⟩).countP AddCall.isOpen + 1 =
      s.calls.countP AddCall.isOpen := countP_set_of_false hp hopen rfl
  have hworkers := hsignals.rank_le
  have hpush : (s.queue.push task).size.toNat = s.queue.size.toNat + 1 := by
    change (s.queue.size + 1).toNat = _
    omega
  rw [hrank] at hsum
  change _ + 4 = _ + 0 at hsum
  unfold potential openTasks
  dsimp only
  rw [List.length_set, hpush, ← hcount]
  have hsame : s.queue.size.toNat + 1 + (s.calls.set p ⟨task, .returned⟩).countP AddCall.isOpen =
      s.queue.size.toNat + ((s.calls.set p ⟨task, .returned⟩).countP AddCall.isOpen + 1) := by
    ring
  rw [hsame]
  omega

theorem Works.potential_lt (h : s.Works e s') (hsize : 0 ≤ s.queue.size) :
    s'.potential < s.potential := by
  cases h with
  | waits e w htests =>
      obtain ⟨phase, hw, hrank⟩ := htests.exists_rank
      exact potential_set_lt hw (b := .waiting) (by rw [hrank]; decide) rfl rfl rfl
  | dequeues e w task htests hne => exact potential_dequeue_lt htests (by omega)
  | startsWorking w k task hw =>
      exact potential_set_lt hw (b := .running k task) (Nat.lt_succ_self 4) rfl rfl rfl
  | finishes w k task hw =>
      exact potential_set_lt hw (b := .finished k task) (Nat.lt_succ_self 3) rfl rfl rfl
  | endsWorking w k task hw =>
      exact potential_set_lt hw (b := .starting) (Nat.lt_succ_self 2) rfl rfl rfl
  | exits w hw => exact potential_set_lt hw (b := .terminated) Nat.one_pos rfl rfl rfl
  | blocks p target task hadds => exact potential_block_lt hadds
  | enqueues p target task old workers hadds hroom hsignals =>
      exact potential_enqueue_lt hadds hsize hsignals

end Threadpool

end SafeTransmission
