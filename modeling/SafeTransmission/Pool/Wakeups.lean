import SafeTransmission.Pool.Queue

/-!
# Signals for workers

`threadpool_add` wakes one worker for its task.  `adjust_thread` uses the same condition
variable to make idle workers exit, and leaves a number of workers that shall exit in
`wait_exit_thr_num`, also when there are not so many idle workers.  A worker that is
woken for a task may find that number and exit, and no one is woken instead of it.

A queued task is attended to exactly if no worker exits in this way while it is the only
one awake, and there is a worker at all when the task is added (`attended_iff`).

## Strategy

* A worker is awake if it will test the queue before it waits.  After a signal one is, if any worker
  lives (`Signals.awake`).
* Every step that meets the condition keeps somebody awake as long as there is a task
  (`Attended.acts`): the last one that is awake waits only if the queue is empty.
* A step that does not meet it leaves a task with nobody awake (`mindful_of_attends`).
-/

namespace SafeTransmission

open Outcome

namespace ThreadPhase

/-- The worker has not left the loop. -/
def isLive : ThreadPhase → Bool
  | exiting | terminated => false
  | _ => true

/-- The worker has not left the loop and is not blocked on `queue_not_empty`. -/
def isAwake : ThreadPhase → Bool
  | waiting | exiting | terminated => false
  | _ => true

end ThreadPhase

namespace Threadpool

variable {s s' : Threadpool} {e : PoolEvent} {initial : List Task}

/-- While a task is queued, some worker is not asleep. -/
def Attended (s : Threadpool) : Prop :=
  s.shutdown = false → 0 < s.queue.size → ∃ phase ∈ s.workers, phase.isAwake = true

/-- The step leaves no task alone. -/
def Attends (s : Threadpool) (e : PoolEvent) : Prop :=
  ∀ s', s.step e = ok s' → s'.Attended

/-- The worker is woken and exits, since `wait_exit_thr_num` says so. -/
def Retires (s : Threadpool) (w : ℕ) : Prop :=
  s.workers[w]? = some .woken ∧ 0 < s.waitExitThrNum ∧ s.minThrNum < s.liveThrNum

/-- No worker exits while a task is queued and all others sleep, and no task is added
while there is no worker. -/
structure Mindful (s : Threadpool) (e : PoolEvent) : Prop where
  retires : ∀ w, e = .resume w → s.Retires w → 0 < s.queue.size →
    ∃ v phase, v ≠ w ∧ s.workers[v]? = some phase ∧ phase.isAwake = true
  enqueues : ∀ task s', s.Enqueues task e → s.step e = ok s' →
    ∃ phase ∈ s.workers, phase.isLive = true

/-! ## Workers that are awake -/

theorem awake_set {workers : List ThreadPhase} {w : ℕ} {a b : ThreadPhase}
    (hw : workers[w]? = some a) (hb : b.isAwake = true) :
    ∃ phase ∈ workers.set w b, phase.isAwake = true :=
  ⟨b, List.mem_set (List.getElem?_eq_some_iff.mp hw).1 b, hb⟩

/-- A worker that was not awake cannot be the one that is. -/
theorem awake_set_of_ne {workers : List ThreadPhase} {v w : ℕ} {a b phase : ThreadPhase}
    (hw : workers[w]? = some a) (hne : v ≠ w) (hv : workers[v]? = some phase)
    (hawake : phase.isAwake = true) : ∃ phase ∈ workers.set w b, phase.isAwake = true := by
  refine ⟨phase, List.mem_of_getElem? (i := v) ?_, hawake⟩
  rw [getElem?_set_of_some hw, if_neg hne, hv]

theorem Signals.awake {workers workers' : List ThreadPhase} (h : Signals workers workers')
    (hlive : ∃ phase ∈ workers, phase.isLive = true) : ∃ phase ∈ workers', phase.isAwake = true := by
  cases h with
  | nobody hnobody =>
      obtain ⟨phase, hmem, hlive⟩ := hlive
      refine ⟨phase, hmem, ?_⟩
      have hnot := hnobody phase hmem
      cases phase with
      | waiting => exact absurd rfl hnot
      | exiting => cases hlive
      | terminated => cases hlive
      | _ => rfl
  | woken w hw => exact awake_set hw rfl

/-- Every step that meets the condition leaves somebody awake. -/
theorem Attended.acts (h : s.Attended) (hmindful : s.Mindful e) (hstep : s.step e = ok s')
    (he : e.byDestroy = false) : s'.Attended := by
  have hact := (acts_of_step hstep).1
  intro hrunning hsize
  have hold : s.shutdown = false := shutdown_of_acts hact hrunning
  cases hact with
  | created i =>
      obtain ⟨phase, hmem, hawake⟩ := h hold hsize
      exact ⟨phase, List.mem_append_left _ hmem, hawake⟩
  | waits e w n htests hempty =>
      -- it waits only if there is no task
      change 0 < s.queue.size at hsize
      rw [hempty] at hsize
      exact absurd hsize (lt_irrefl 0)
  | leaves e w n htests hreads => cases hreads.of_running hold
  | dequeues e w n task htests =>
      obtain ⟨phase, hw, -⟩ := htests.exists_phase
      exact awake_set hw rfl
  | retires w shutdown hw hexit hlive =>
      -- the condition leaves another one awake
      obtain ⟨v, phase, hne, hv, hawake⟩ := hmindful.retires w rfl ⟨hw, hexit, hlive⟩ hsize
      exact awake_set_of_ne hw hne hv hawake
  | wakesUp w hw => exact awake_set hw rfl
  | startsWorking w k task hw => exact awake_set hw rfl
  | finishes w k task hw => exact awake_set hw rfl
  | endsWorking w k task hw => exact awake_set hw rfl
  | exits w hw =>
      -- the worker was not awake any more
      obtain ⟨phase, hmem, hawake⟩ := h hold hsize
      obtain ⟨v, hv⟩ := List.getElem?_of_mem hmem
      have hne : v ≠ w := by
        rintro rfl
        cases hw.symm.trans hv
        cases hawake
      exact awake_set_of_ne hw hne hv hawake
  | enqueues e p task old workers henqueues hslot hsignals =>
      exact hsignals.awake (hmindful.enqueues task _ henqueues hstep)
  | grows target phase =>
      rw [grow_eq Threadpool.queue fun _ _ => rfl] at hsize
      refine grow_keeps (fun s => ∃ phase ∈ s.workers, phase.isAwake = true) ?_ _ _ _ (h hold hsize)
      rintro s i ⟨phase, hmem, hawake⟩ - -
      exact ⟨phase, List.mem_append_left _ hmem, hawake⟩
  | signals target phase workers _ _ hsignals =>
      apply hsignals.awake
      obtain ⟨phase, hmem, hawake⟩ := h hold hsize
      refine ⟨phase, hmem, ?_⟩
      cases phase with
      | waiting | exiting | terminated => cases hawake
      | _ => rfl
  | shutsDown | shutsDownInside | joinsAdjust | broadcasts | endsBroadcasts | joins | frees
  | freesPool => cases he
  | _ => exact h hold hsize

/-! ## Workers that are missed -/

theorem live_of_awake {phase : ThreadPhase} (h : phase.isAwake = true) : phase.isLive = true := by
  cases phase with
  | waiting | exiting | terminated => cases h
  | _ => rfl

theorem Signals.live {workers workers' : List ThreadPhase} (h : Signals workers workers')
    (hawake : ∃ phase ∈ workers', phase.isAwake = true) : ∃ phase ∈ workers, phase.isLive = true := by
  cases h with
  | nobody =>
      obtain ⟨phase, hmem, hawake⟩ := hawake
      exact ⟨phase, hmem, live_of_awake hawake⟩
  | woken w hw => exact ⟨.waiting, List.mem_of_getElem? hw, rfl⟩

theorem step_of_retires {w : ℕ} (h : s.Retires w) (hinside : s.inside = none)
    (hthere : s.destroy ≠ .freed) :
    s.step (.resume w) = ok { s with
      workers := s.workers.set w .exiting
      waitExitThrNum := s.waitExitThrNum - 1
      liveThrNum := s.liveThrNum - 1 } := by
  obtain ⟨hw, hexit, hlive⟩ := h
  refine step_of_act ?_ hthere
  simp only [act, resume, require_bind_of hw, takeLock_of_none hinside, ok_bind, hexit, hlive, reduceIte]
  rfl

theorem mindful_of_attends (hsize : 0 ≤ s.queue.size) (hrunning : s.shutdown = false)
    (hinside : s.inside = none) (hthere : s.destroy ≠ .freed) (h : s.Attends e) : s.Mindful e where
  retires := by
    rintro w rfl hretires hqueued
    obtain ⟨phase, hmem, hawake⟩ := h _ (step_of_retires hretires hinside hthere) hrunning hqueued
    obtain ⟨v, hv⟩ := List.getElem?_of_mem hmem
    change (s.workers.set w .exiting)[v]? = some phase at hv
    rw [getElem?_set_of_some hretires.1] at hv
    split at hv
    · -- the worker that exits is not awake
      cases hv
      cases hawake
    · rename_i hne
      exact ⟨v, phase, hne, hv, hawake⟩
  enqueues := by
    intro task s' henqueues hstep
    have hattended := h s' hstep
    obtain ⟨p, old, workers, hslot, hsignals, rfl⟩ := eq_of_enqueues henqueues hstep
    have hpushed : 0 < s.queue.size + 1 := by omega
    exact hsignals.live (hattended hrunning hpushed)

/-! ## Runs -/

/-- The pool before a call of `threadpool_destroy`. -/
structure Undestroyed (initial : List Task) (s : Threadpool) : Prop where
  running : Running initial s
  shutdown : s.shutdown = false
  inside : s.inside = none
  uncalled : s.destroy = .uncalled

theorem undestroyed_create (minThrNum maxThrNum waitExitThrNum : ℤ) (initial : List Task)
    (findsTerminated : Bool) : Undestroyed initial
      (threadpoolCreate minThrNum maxThrNum initial waitExitThrNum findsTerminated) :=
  ⟨running_create _ _ _ _ _, rfl, rfl, rfl⟩

theorem Undestroyed.acts (h : Undestroyed initial s) (hact : s.Acts e s') (he : e.byDestroy = false) :
    Undestroyed initial s' := by
  have hshutdown := (shutdown_eq_of_acts hact he).trans h.shutdown
  exact ⟨h.running.acts hact hshutdown, hshutdown, inside_of_acts hact he h.inside,
    (destroy_eq_of_acts hact he).trans h.uncalled⟩

/-- In every run without a shutdown, a queued task has a worker that is not asleep exactly
if no worker exits that is the only one awake. -/
theorem attended_iff (minThrNum maxThrNum waitExitThrNum : ℤ) (initial : List Task)
    (findsTerminated : Bool) {es : List PoolEvent} (hes : ∀ e ∈ es, e.byDestroy = false) :
    EachStep step Attends es
        (threadpoolCreate minThrNum maxThrNum initial waitExitThrNum findsTerminated) ↔
      EachStep step Mindful es
        (threadpoolCreate minThrNum maxThrNum initial waitExitThrNum findsTerminated) := by
  have hiff : ∀ s e, Undestroyed initial s ∧ s.Attended → e.byDestroy = false →
      (s.Attends e ↔ s.Mindful e) := by
    rintro s e ⟨h, hattended⟩ he
    constructor
    · apply mindful_of_attends h.running.order.window.size_nonneg h.shutdown h.inside
      rw [h.uncalled]
      simp
    · intro hmindful s' hstep
      exact hattended.acts hmindful hstep he
  have hkeep : ∀ s e s', Undestroyed initial s ∧ s.Attended → e.byDestroy = false → s.Mindful e →
      s.step e = ok s' → Undestroyed initial s' ∧ s'.Attended := by
    rintro s e s' ⟨h, hattended⟩ he hmindful hstep
    exact ⟨h.acts (acts_of_step hstep).1 he, hattended.acts hmindful hstep he⟩
  have hinit : (threadpoolCreate minThrNum maxThrNum initial waitExitThrNum
      findsTerminated).Attended := fun _ hqueued => absurd hqueued (lt_irrefl 0)
  exact eachStep_iff (fun s => Undestroyed initial s ∧ s.Attended) hiff hkeep hes
    ⟨undestroyed_create _ _ _ _ _, hinit⟩

/-- A pool that grows and gets a task. -/
theorem attended_iff_grown :
    EachStep step Attends ([.create, .create] ++ addTasks 0 10 ++ adjusts 5)
        (threadpoolCreate 1 2 (List.replicate 10 ⟨0, none⟩) 0 true) ↔
      EachStep step Mindful ([.create, .create] ++ addTasks 0 10 ++ adjusts 5)
        (threadpoolCreate 1 2 (List.replicate 10 ⟨0, none⟩) 0 true) :=
  attended_iff 1 2 0 (List.replicate 10 ⟨0, none⟩) true (by decide +kernel)

/-- Ten tasks make `adjust_thread` create a second worker.  As both are idle, it then lets
ten workers exit, but none of them waits.  When all tasks are done, one more is added. -/
def leftoverExits : List PoolEvent :=
  [.create, .create] ++ addTasks 0 10 ++ adjusts 21 ++ runTasks 0 10 ++
    [.enter 0, .enter 1, .call ⟨0, none⟩, .add 10 (some 0)]

/-- The worker that is woken for the last task exits, and the other one sleeps on. -/
theorem not_attends_leftoverExits :
    ¬EachStep step Attends (leftoverExits ++ [.resume 0])
      (threadpoolCreate 1 2 (List.replicate 10 ⟨0, none⟩) 0 true) := by
  intro hattends
  have hreached : reaches step leftoverExits
      (threadpoolCreate 1 2 (List.replicate 10 ⟨0, none⟩) 0 true)
      (fun s => s.workers = [.woken, .waiting] ∧ s.waitExitThrNum = 10 ∧ s.minThrNum = 1 ∧
        s.liveThrNum = 2 ∧ s.queue.size = 1 ∧ s.shutdown = false ∧ s.inside = none ∧ s.destroy = .uncalled) = true := by
    decide +kernel
  obtain ⟨s, hrun, hs⟩ := exists_of_reaches hreached
  obtain ⟨hworkers, hexit, hmin, hlive, hsize, hrunning, hinside, huncalled⟩ := of_decide_eq_true hs
  have hretires : s.Retires 0 := by
    refine ⟨by rw [hworkers]; rfl, by omega, by omega⟩
  have hstep := step_of_retires hretires hinside (by rw [huncalled]; simp)
  have hqueued : 0 < s.queue.size := by omega
  obtain ⟨phase, hmem, hawake⟩ := hattends.last hrun _ hstep hrunning hqueued
  have hasleep : ∀ phase ∈ [ThreadPhase.exiting, .waiting], phase.isAwake = false := by decide
  change phase ∈ s.workers.set 0 .exiting at hmem
  rw [hworkers] at hmem
  rw [hasleep phase hmem] at hawake
  cases hawake

end Threadpool

end SafeTransmission
