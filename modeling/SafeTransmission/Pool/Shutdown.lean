import SafeTransmission.Pool.StepsLeft

/-!
# After the shutdown

When `threadpool_destroy` has been called, all threads come to rest after a bounded number of steps
(`windsDown`).  Unless a step is undefined then, the pool is freed, all workers have terminated and
all calls of `threadpool_add` have returned, or `threadpool_destroy` waits for ever for a worker
that sleeps.

`threadpool_destroy` stores `shutdown` and broadcasts without the lock.  A worker whose critical
section contains the store may have tested `shutdown` before and begin to wait behind the last
broadcast.  Nobody wakes it any more, and no other worker can be left asleep.

A call that waits for room is woken only by such a worker, if it takes a task.  Otherwise it still
waits when the condition variables are destroyed, and that is undefined.

## Strategy

* Every step makes the bound `toEnd` for the steps that are left smaller (`toEnd_lt`).
* `Closing` is kept by all steps: after the broadcasts a worker that waits is the one whose section
  contains the store.
* Where no thread can take a step (`Still`), nobody is in a section, so every worker has terminated
  or waits, every call has returned or waits, and `threadpool_destroy` is at its end or joins a
  worker that waits.

As in `Works`, a thread that waits does not wake up without a signal.
-/

namespace SafeTransmission

open Outcome

/-- All workers that waited have been woken. -/
def DestroyPhase.swept : DestroyPhase → Bool
  | broadcasting (_ + 1) | joining _ | freeing | freed => true
  | _ => false

namespace Threadpool

variable {s s' : Threadpool} {e : PoolEvent}

/-! ## The section that contains the store -/

theorem mayHold_worker {w : ℕ} : s.MayHold (.worker w) ↔
    ∃ phase, s.workers[w]? = some phase ∧ phase.isTesting = true := by
  constructor
  · rintro (hw | hw)
    · exact ⟨.starting, hw, rfl⟩
    · exact ⟨.woken, hw, rfl⟩
  · rintro ⟨phase, hw, htesting⟩
    cases phase with
    | starting => exact Or.inl hw
    | woken => exact Or.inr hw
    | _ => cases htesting

/-- The workers that take the lock next still do. -/
def KeepsTesting (workers workers' : List ThreadPhase) : Prop :=
  ∀ (w : ℕ) phase, workers[w]? = some phase → phase.isTesting = true →
    ∃ phase', workers'[w]? = some phase' ∧ phase'.isTesting = true

theorem KeepsTesting.refl (workers : List ThreadPhase) : KeepsTesting workers workers :=
  fun _ phase hw htesting => ⟨phase, hw, htesting⟩

theorem KeepsTesting.set {workers : List ThreadPhase} {w : ℕ} {a b : ThreadPhase}
    (hw : workers[w]? = some a) (hb : a.isTesting = true → b.isTesting = true) :
    KeepsTesting workers (workers.set w b) := by
  intro v phase hv htesting
  rw [getElem?_set_of_some hw]
  split
  · rename_i hsame
    subst hsame
    cases hv.symm.trans hw
    exact ⟨b, rfl, hb htesting⟩
  · exact ⟨phase, hv, htesting⟩

theorem KeepsTesting.concat (workers : List ThreadPhase) (phase : ThreadPhase) :
    KeepsTesting workers (workers ++ [phase]) :=
  fun _ old hw htesting => ⟨old, getElem?_append_of_some hw _, htesting⟩

theorem Signals.keepsTesting {workers workers' : List ThreadPhase} (h : Signals workers workers') :
    KeepsTesting workers workers' := by
  cases h with
  | nobody => exact .refl _
  | woken w hw => exact .set hw fun _ => rfl

theorem KeepsTesting.wake (workers : List ThreadPhase) :
    KeepsTesting workers (workers.map ThreadPhase.wake) := by
  intro w phase hw htesting
  refine ⟨phase.wake, by rw [List.getElem?_map, hw]; rfl, ?_⟩
  cases phase with
  | starting | woken => rfl
  | _ => cases htesting

theorem MayHold.keep {holder : Holder} (h : s.MayHold holder)
    (hworkers : KeepsTesting s.workers s'.workers)
    (hcalls : ∀ p, holder = .call p → s'.calls[p]? = s.calls[p]?) : s'.MayHold holder := by
  cases holder with
  | worker w =>
      obtain ⟨phase, hw, htesting⟩ := mayHold_worker.mp h
      exact mayHold_worker.mpr (hworkers w phase hw htesting)
  | call p =>
      change s'.addingTask p ≠ none
      rw [addingTask, hcalls p rfl]
      exact h

theorem inside_of_insideAfter {holder : Holder} (h : s.insideAfter e = some holder) :
    s.inside = some holder := by
  rcases insideAfter_eq_or s e with hnone | hsame
  · cases hnone.symm.trans h
  · exact hsame.symm.trans h

/-- A call that takes a step has left its section. -/
theorem Turns.ne_holder {p : ℕ} {holder : Holder} (h : s.Turns p e) (hholds : s.MayHold holder)
    (hinside : s.insideAfter e = some holder) : holder ≠ .call p := by
  rintro rfl
  have hadding : ∀ task phase, s.calls[p]? = some ⟨task, phase⟩ → phase = .waiting ∨
      phase = .unlocked → s.addingTask p = none := by
    rintro task phase hp (rfl | rfl) <;> rw [addingTask, hp]
  cases e with
  | add => cases hinside
  | wakeCall =>
      obtain ⟨-, task, hp⟩ := h
      exact hholds (hadding task _ hp (Or.inl rfl))
  | goOn =>
      obtain ⟨-, task, hp⟩ := h
      exact hholds (hadding task _ hp (Or.inr rfl))
  | _ => exact h.elim

theorem set_other {p : ℕ} {holder : Holder} (hne : holder ≠ .call p) (calls : List AddCall)
    (call : AddCall) : ∀ q, holder = .call q → (calls.set p call)[q]? = calls[q]? := by
  rintro q rfl
  exact List.getElem?_set_ne fun hsame => hne (congrArg Holder.call hsame.symm)

/-- The thread whose section contains the store takes no other step before the section ends. -/
theorem mayHold_of_acts {holder : Holder} (h : s.inside = some holder → s.MayHold holder)
    (hact : s.Acts e s') (hinside : s'.inside = some holder) : s'.MayHold holder := by
  cases hact with
  | waits | leaves | dequeues | retires => cases hinside
  | created i => exact (h hinside).keep (.concat _ _) fun _ _ => rfl
  | wakesUp w hw => exact (h hinside).keep (.set hw fun _ => rfl) fun _ _ => rfl
  | startsWorking w k task hw =>
      exact (h hinside).keep (.set hw (by simp [ThreadPhase.isTesting])) fun _ _ => rfl
  | finishes w k task hw =>
      exact (h hinside).keep (.set hw (by simp [ThreadPhase.isTesting])) fun _ _ => rfl
  | endsWorking w k task hw => exact (h hinside).keep (.set hw fun _ => rfl) fun _ _ => rfl
  | exits w hw =>
      exact (h hinside).keep (.set hw (by simp [ThreadPhase.isTesting])) fun _ _ => rfl
  | calls task =>
      -- a new call does not touch those that are there
      have hholds := h hinside
      refine hholds.keep (.refl _) fun p hp => ?_
      subst hp
      change (s.calls ++ _)[p]? = _
      obtain ⟨task, htask⟩ := Option.ne_none_iff_exists'.mp hholds
      rcases addingTask_eq_some.mp htask with hcall | hcall
      · rw [getElem?_append_of_some hcall, hcall]
      · rw [getElem?_append_of_some hcall, hcall]
  | moves e p call _ _ _ _ hturns =>
      -- the call is not the one in its section
      have hholds := h (inside_of_insideAfter hinside)
      exact hholds.keep (.refl _) (set_other (hturns.ne_holder hholds hinside) _ _)
  | enqueues e p task old workers _ _ hsignals _ hturns =>
      have hholds := h (inside_of_insideAfter hinside)
      exact hholds.keep hsignals.keepsTesting (set_other (hturns.ne_holder hholds hinside) _ _)
  | grows target phase =>
      rw [grow_eq Threadpool.inside fun _ _ => rfl] at hinside
      exact grow_keeps (fun s => s.MayHold holder)
        (fun s i hs _ _ => hs.keep (.concat _ _) fun _ _ => rfl) _ _ _ (h hinside)
  | signals target phase workers _ _ hsignals =>
      exact (h hinside).keep hsignals.keepsTesting fun _ _ => rfl
  | shutsDownInside holder' _ _ hholds =>
      cases hinside
      exact hholds.keep (.refl _) fun _ _ => rfl
  | broadcasts => exact (h hinside).keep (.wake _) fun _ _ => rfl
  | _ => exact (h hinside).keep (.refl _) fun _ _ => rfl

/-! ## What holds after the shutdown -/

/-- The pool on its way to the end, where `stale w` says that the section of worker `w` contained
the store.  `threadpool_destroy` sets `shutdown` first, waits for `adjust_thread`, and then wakes
all workers. -/
structure Closing (stale : ℕ → Prop) (s : Threadpool) : Prop where
  shutdown : s.destroy ≠ .uncalled → s.shutdown = true
  creating : s.destroy ≠ .uncalled → s.creating = none
  ended : s.destroy ≠ .uncalled → s.destroy ≠ .joiningAdjust → s.adjust = .ended
  holds : ∀ holder, s.inside = some holder → s.MayHold holder
  inside : ∀ w, s.inside = some (.worker w) → stale w
  awake : s.destroy.swept = true → ∀ w : ℕ, s.workers[w]? = some .waiting → stale w
  destroyed : s.destroy = .freed → ¬s.SomeoneWaits

theorem called_of_swept (h : s.destroy.swept = true) : s.destroy ≠ .uncalled := by
  intro huncalled
  rw [huncalled] at h
  cases h

theorem waiting_of_set {workers : List ThreadPhase} {v w : ℕ} {phase : ThreadPhase}
    (hphase : phase ≠ .waiting) (hv : (workers.set w phase)[v]? = some .waiting) :
    workers[v]? = some .waiting := by
  rw [List.getElem?_set] at hv
  split at hv
  · split at hv
    · exact absurd (Option.some.inj hv) hphase
    · cases hv
  · exact hv

theorem Signals.waiting {workers workers' : List ThreadPhase} (h : Signals workers workers') {v : ℕ}
    (hv : workers'[v]? = some .waiting) : workers[v]? = some .waiting := by
  cases h with
  | nobody => exact hv
  | woken w => exact waiting_of_set (by simp) hv

theorem not_waiting_wake {workers : List ThreadPhase} {v : ℕ} :
    (workers.map ThreadPhase.wake)[v]? ≠ some .waiting := by
  rw [List.getElem?_map]
  intro hv
  obtain ⟨old, -, hold⟩ := Option.map_eq_some_iff.mp hv
  cases old <;> cases hold

/-- After the shutdown only a worker whose section contained the store begins to wait. -/
theorem Closing.waiting_of_acts {stale : ℕ → Prop} (h : s.Closing stale)
    (hcalled : s.destroy ≠ .uncalled) (hact : s.Acts e s') {v : ℕ}
    (hv : s'.workers[v]? = some .waiting) : stale v ∨ s.workers[v]? = some .waiting := by
  cases hact with
  | created i hi => cases (h.creating hcalled).symm.trans hi
  | waits e w n htests _ hreads =>
      by_cases hsame : v = w
      · subst hsame
        exact Or.inl (h.inside v (hreads.inside (h.shutdown hcalled)))
      · right
        rwa [List.getElem?_set_ne (Ne.symm hsame)] at hv
  | leaves | dequeues | retires | wakesUp | startsWorking | finishes | endsWorking | exits =>
      exact Or.inr (waiting_of_set (by simp) hv)
  | enqueues e p task old workers _ _ hsignals => exact Or.inr (hsignals.waiting hv)
  | grows target phase =>
      right
      revert hv
      refine grow_keeps (fun s' => s'.workers[v]? = some .waiting → s.workers[v]? = some .waiting)
        (fun s' i hs _ _ hv => hs ?_) _ _ _ id
      change (s'.workers ++ [.starting])[v]? = some .waiting at hv
      rw [List.getElem?_append] at hv
      split at hv
      · exact hv
      · cases List.mem_singleton.mp (List.mem_of_getElem? hv)
  | signals target phase workers _ _ hsignals => exact Or.inr (hsignals.waiting hv)
  | broadcasts => exact absurd hv not_waiting_wake
  | _ => exact Or.inr hv

/-- The section of a worker contains the store only where `stale` says so. -/
theorem Closing.inside_of_acts {stale : ℕ → Prop} (h : s.Closing stale) (hact : s.Acts e s')
    (hstale : ∀ w, e = .shutDownInside (.worker w) → stale w) {w : ℕ}
    (hinside : s'.inside = some (.worker w)) : stale w := by
  cases hact with
  | waits | leaves | dequeues | retires => cases hinside
  | moves | enqueues => exact h.inside w (inside_of_insideAfter hinside)
  | grows target phase =>
      rw [grow_eq Threadpool.inside fun _ _ => rfl] at hinside
      exact h.inside w hinside
  | shutsDownInside holder =>
      cases hinside
      exact hstale w rfl
  | _ => exact h.inside w hinside

/-- A step that does not use the pool blocks nobody. -/
theorem not_waits_of_acts (h : ¬s.SomeoneWaits) (huses : e.usesPool = false) (hact : s.Acts e s') :
    ¬s'.SomeoneWaits := by
  obtain ⟨hworkers, hcalls⟩ := not_or.mp h
  push Not at hworkers hcalls
  apply not_or.mpr
  push Not
  cases hact with
  | finishes w k task => exact ⟨forall_mem_set hworkers (by simp) w, hcalls⟩
  | exits w => exact ⟨forall_mem_set hworkers (by simp) w, hcalls⟩
  | calls task => exact ⟨hworkers, forall_mem_concat hcalls (by simp)⟩
  | waits e w n htests | leaves e w n htests | dequeues e w n task htests =>
      rcases htests with ⟨rfl, -⟩ | ⟨rfl, -⟩ <;> cases huses
  | moves e p call _ _ _ _ hturns => cases hturns.usesPool.symm.trans huses
  | enqueues e p task old workers _ _ _ _ hturns => cases hturns.usesPool.symm.trans huses
  | _ => cases huses

theorem Closing.others {stale : ℕ → Prop} (h : s.Closing stale) (hact : s.Acts e s')
    (he : e.byDestroy = false) (hthere : ¬(s.destroy = .freed ∧ e.usesPool = true)) :
    s'.Closing stale := by
  have hdestroy := destroy_eq_of_acts hact he
  have hshutdown := shutdown_eq_of_acts hact he
  refine ⟨?_, ?_, ?_, fun holder => mayHold_of_acts (h.holds holder) hact, ?_, ?_, ?_⟩
  · intro hcalled
    rw [hdestroy] at hcalled
    exact hshutdown.trans (h.shutdown hcalled)
  · intro hcalled
    rw [hdestroy] at hcalled
    exact creating_of_acts (h.creating hcalled) hact
  · intro hcalled hjoining
    rw [hdestroy] at hcalled hjoining
    exact (settled_of_acts (h.creating hcalled) (h.ended hcalled hjoining) hact).1
  · intro w
    apply h.inside_of_acts hact
    rintro v rfl
    cases he
  · intro hswept v hv
    rw [hdestroy] at hswept
    rcases h.waiting_of_acts (called_of_swept hswept) hact hv with hstale | hwaiting
    · exact hstale
    · exact h.awake hswept v hwaiting
  · intro hfreed
    rw [hdestroy] at hfreed
    have huses := Bool.eq_false_of_not_eq_true fun huses => hthere ⟨hfreed, huses⟩
    exact not_waits_of_acts (h.destroyed hfreed) huses hact

theorem Closing.goOn {stale : ℕ → Prop} (h : s.Closing stale) (hcalled : s.destroy ≠ .uncalled)
    {phase : DestroyPhase} (hended : s.adjust = .ended)
    (hawake : phase.swept = true → ∀ w : ℕ, s.workers[w]? = some .waiting → stale w)
    (hdestroyed : phase = .freed → ¬s.SomeoneWaits) :
    { s with destroy := phase }.Closing stale where
  shutdown _ := h.shutdown hcalled
  creating _ := h.creating hcalled
  ended _ _ := hended
  holds holder hinside := (h.holds holder hinside).keep (.refl _) fun _ _ => rfl
  inside := h.inside
  awake := hawake
  destroyed := hdestroyed

/-- The loop of broadcasts is entered if there is a worker to join. -/
theorem Closing.destroyStep {stale : ℕ → Prop} (h : s.Closing stale) (hlive : 1 ≤ s.liveThrNum)
    (hstep : s.destroyStep = ok s') : s'.Closing stale := by
  unfold Threadpool.destroyStep at hstep
  split at hstep
  · obtain ⟨hcreating, hstep⟩ := require_bind_eq_ok.mp hstep
    cases hstep
    refine ⟨fun _ => rfl, fun _ => hcreating, by simp, fun holder hinside => ?_, h.inside,
      by simp [DestroyPhase.swept], by simp⟩
    exact (h.holds holder hinside).keep (.refl _) fun _ _ => rfl
  · rename_i hphase
    obtain ⟨hended, hstep⟩ := require_bind_eq_ok.mp hstep
    cases hstep
    exact h.goOn (by simp [hphase]) hended (by simp [DestroyPhase.swept]) (by simp)
  · rename_i i hphase
    have hcalled : s.destroy ≠ .uncalled := by simp [hphase]
    have hended := h.ended hcalled (by simp [hphase])
    split at hstep
    · cases hstep
      have hwoken : { s with workers := s.workers.map ThreadPhase.wake }.Closing stale := by
        refine ⟨h.shutdown, h.creating, h.ended, fun holder hinside => ?_, h.inside,
          fun _ v hv => absurd hv not_waiting_wake, by simp [hphase]⟩
        exact (h.holds holder hinside).keep (.wake _) fun _ _ => rfl
      exact hwoken.goOn hcalled hended (fun _ v hv => absurd hv not_waiting_wake) (by simp)
    · rename_i hend
      cases hstep
      refine h.goOn hcalled hended (fun _ => h.awake ?_) (by simp)
      -- so there was a broadcast before
      cases i with
      | zero => exact absurd hlive (by omega)
      | succ i =>
          rw [hphase]
          rfl
  · rename_i i hphase
    have hcalled : s.destroy ≠ .uncalled := by simp [hphase]
    have hended := h.ended hcalled (by simp [hphase])
    have hawake := h.awake (by rw [hphase]; rfl)
    split at hstep
    · split at hstep
      · obtain ⟨-, hstep⟩ := require_bind_eq_ok.mp hstep
        cases hstep
        exact h.goOn hcalled hended (fun _ => hawake) (by simp)
      · cases hstep
    · cases hstep
      exact h.goOn hcalled hended (fun _ => hawake) (by simp)
  · rename_i hphase
    have hcalled : s.destroy ≠ .uncalled := by simp [hphase]
    split at hstep
    · cases hstep
    · rename_i hnobody
      cases hstep
      exact h.goOn hcalled (h.ended hcalled (by simp [hphase]))
        (fun _ => h.awake (by rw [hphase]; rfl)) fun _ => hnobody
  · cases hstep

theorem Closing.step {stale : ℕ → Prop} (h : s.Closing stale) (hlive : 1 ≤ s.liveThrNum)
    (hstale : ∀ w, e = .shutDownInside (.worker w) → stale w) (hstep : s.step e = ok s') :
    s'.Closing stale := by
  obtain ⟨s₁, hact, hthere⟩ := bind_eq_ok.mp hstep
  split at hthere
  · cases hthere
  · rename_i hused
    cases hthere
    cases e with
    | destroy => exact h.destroyStep hlive hact
    | shutDownInside holder =>
        have hacts := acts_of_act hact
        obtain ⟨⟨-, hcreating, -⟩, hact⟩ := require_bind_eq_ok.mp hact
        cases hact
        exact ⟨fun _ => rfl, fun _ => hcreating, by simp,
          fun other => mayHold_of_acts (h.holds other) hacts,
          fun w => h.inside_of_acts hacts hstale, by simp [DestroyPhase.swept], by simp⟩
    | _ => exact h.others (acts_of_act hact) rfl hused

/-! ## What a thread can always do -/

theorem testQueue_ne_err (shutdown : Bool) (w : ℕ) (code : ℤ) :
    s.testQueue shutdown w ≠ err code := by
  unfold testQueue
  split
  · simp
  · split
    · simp
    · split <;> simp

theorem enter_ne_err {w : ℕ} {shutdown : Bool} (hw : s.workers[w]? = some .starting)
    (hreads : s.Reads (.worker w) shutdown) (code : ℤ) : s.enter w ≠ err code := by
  rw [enter, require_bind_of hw, takeLock_of_reads hreads, ok_bind]
  exact testQueue_ne_err shutdown w code

theorem resume_ne_err {w : ℕ} {shutdown : Bool} (hw : s.workers[w]? = some .woken)
    (hreads : s.Reads (.worker w) shutdown) (code : ℤ) : s.resume w ≠ err code := by
  rw [resume, require_bind_of hw, takeLock_of_reads hreads, ok_bind]
  dsimp only
  split
  · split
    · simp
    · exact testQueue_ne_err shutdown w code
  · exact testQueue_ne_err shutdown w code

theorem exists_enqueue (s : Threadpool) (task : Task) :
    ∃ target, ∀ code, s.enqueue task target ≠ err code := by
  unfold enqueue
  split
  · exact ⟨none, by simp⟩
  · rename_i old hslot
    obtain ⟨target, s', hsignal⟩ := exists_signal { s with
      queue := s.queue.push task
      added := s.added ++ [task]
      frees := s.frees ++ old.arg.toList }
    exact ⟨target, by simp [hsignal]⟩

theorem exists_add {p : ℕ} {task : Task} {shutdown : Bool} (hcall : s.addingTask p = some task)
    (hreads : s.Reads (.call p) shutdown) : ∃ target, ∀ code, s.add p target ≠ err code := by
  have hadd : ∀ target, s.add p target = addTask { s with inside := none } shutdown p task target := by
    intro target
    simp only [add, hcall, takeLock_of_reads hreads, ok_bind]
  simp only [hadd, addTask]
  split
  · exact ⟨none, by simp⟩
  · split
    · exact ⟨none, by simp⟩
    · exact exists_enqueue _ task

/-! ## The end -/

/-- `threadpool_destroy` waits for a worker that sleeps. -/
structure JoinsSleeper (s : Threadpool) (w : ℕ) : Prop where
  joining : ∃ i, s.destroy = .joining i ∧ s.threads[i]? = some (some w)
  waiting : s.workers[w]? = some .waiting

/-- No thread can take a step, be it defined or not. -/
def Still (s : Threadpool) : Prop :=
  ∀ e, PoolEvent.goesOn e = true → ∃ code, s.act e = err code

theorem Still.not {e : PoolEvent} (h : s.Still) (hgoes : e.goesOn = true)
    (hact : ∀ code, s.act e ≠ err code) : False := by
  obtain ⟨code, herr⟩ := h e hgoes
  exact hact code herr

namespace Still

theorem inside {stale : ℕ → Prop} (h : s.Still) (hclosing : s.Closing stale) : s.inside = none := by
  by_contra hinside
  obtain ⟨holder, hinside⟩ := Option.ne_none_iff_exists'.mp hinside
  have hreads : s.Reads holder false := Or.inr ⟨hinside, rfl⟩
  have hholds := hclosing.holds holder hinside
  cases holder with
  | worker w =>
      rcases hholds with hw | hw
      · exact h.not (e := .enter w) rfl (enter_ne_err hw hreads)
      · exact h.not (e := .resume w) rfl (resume_ne_err hw hreads)
  | call p =>
      obtain ⟨task, hcall⟩ := Option.ne_none_iff_exists'.mp hholds
      obtain ⟨target, hadd⟩ := exists_add hcall hreads
      exact h.not (e := .add p target) rfl hadd

theorem worker (h : s.Still) (hinside : s.inside = none) {w : ℕ} {phase : ThreadPhase}
    (hw : s.workers[w]? = some phase) : phase = .waiting ∨ phase = .terminated := by
  have hreads : s.Reads (.worker w) s.shutdown := Or.inl ⟨hinside, rfl⟩
  cases phase with
  | waiting => exact Or.inl rfl
  | terminated => exact Or.inr rfl
  | starting => exact (h.not (e := .enter w) rfl (enter_ne_err hw hreads)).elim
  | woken => exact (h.not (e := .resume w) rfl (resume_ne_err hw hreads)).elim
  | dequeued k task =>
      exact (h.not (e := .startWorking w) rfl (by simp [act, startWorking, hw])).elim
  | running k task => exact (h.not (e := .finish w) rfl (by simp [act, finish, hw])).elim
  | finished k task => exact (h.not (e := .endWorking w) rfl (by simp [act, endWorking, hw])).elim
  | exiting => exact (h.not (e := .exit w) rfl (by simp [act, exit, require_bind_of hw])).elim

theorem call (h : s.Still) (hinside : s.inside = none) {p : ℕ} {call : AddCall}
    (hp : s.calls[p]? = some call) : call.phase = .returned ∨ call.phase = .waiting := by
  obtain ⟨task, phase⟩ := call
  have hreads : s.Reads (.call p) s.shutdown := Or.inl ⟨hinside, rfl⟩
  cases phase with
  | returned => exact Or.inl rfl
  | waiting => exact Or.inr rfl
  | entering =>
      obtain ⟨target, hadd⟩ := exists_add (addingTask_eq_some.mpr (Or.inl hp)) hreads
      exact (h.not (e := .add p target) rfl hadd).elim
  | woken =>
      obtain ⟨target, hadd⟩ := exists_add (addingTask_eq_some.mpr (Or.inr hp)) hreads
      exact (h.not (e := .add p target) rfl hadd).elim
  | unlocked =>
      obtain ⟨target, henqueue⟩ := exists_enqueue (s.setCall p ⟨task, .returned⟩) task
      refine (h.not (e := .goOn p target) rfl ?_).elim
      rw [act, goOn, hp]
      exact henqueue

theorem adjust (h : s.Still) (hinside : s.inside = none) (hcreating : s.creating = none) :
    s.adjust = .ended := by
  by_contra hrunning
  obtain ⟨target, s', hsignal⟩ : ∃ target s', s.adjustThread target = ok s' := by
    unfold adjustThread
    simp only [require_bind_of hcreating]
    cases hphase : s.adjust with
    | ended => exact absurd hphase hrunning
    | testing => exact ⟨none, _, rfl⟩
    | sleeping => exact ⟨none, _, require_bind_of hinside _⟩
    | sampled queueSize live => exact ⟨none, _, rfl⟩
    | growing queueSize live busy =>
        dsimp only
        split
        · exact ⟨none, _, require_bind_of hinside _⟩
        · exact ⟨none, _, rfl⟩
    | shrinking live busy =>
        dsimp only
        split
        · exact ⟨none, _, require_bind_of hinside _⟩
        · exact ⟨none, _, rfl⟩
    | signalling left =>
        cases left with
        | zero => exact ⟨none, _, rfl⟩
        | succ left => exact exists_signal { s with adjust := .signalling left }
  exact h.not (e := .adjust target) rfl (by simp [act, hsignal])

theorem destroy {stale : ℕ → Prop} (h : s.Still) (hclosing : s.Closing stale)
    (hslots : Slots s.threads s.workers) (hcalled : s.destroy ≠ .uncalled) :
    s.destroy = .freed ∨ ∃ w, s.JoinsSleeper w := by
  have hinside := h.inside hclosing
  have hstep : ∀ s', s.destroyStep ≠ ok s' := by
    intro s' hs'
    exact h.not (e := .destroy) rfl (by simp [act, hs'])
  have hdefined : ∀ kind, s.destroyStep ≠ fault kind := by
    intro kind hkind
    exact h.not (e := .destroy) rfl (by simp [act, hkind])
  unfold destroyStep at hstep hdefined
  cases hphase : s.destroy with
  | uncalled => exact absurd hphase hcalled
  | freed => exact Or.inl rfl
  | joiningAdjust =>
      exfalso
      have hended := h.adjust hinside (hclosing.creating hcalled)
      simp only [hphase, require_bind_of hended] at hstep
      exact hstep _ rfl
  | broadcasting i =>
      -- neither branch of the loop waits for anything
      exfalso
      simp only [hphase] at hstep
      split at hstep
      · exact hstep _ rfl
      · exact hstep _ rfl
  | joining i =>
      simp only [hphase] at hstep hdefined
      by_cases hlt : (i : ℤ) < s.liveThrNum
      · simp only [if_pos hlt] at hstep hdefined
        cases hslot : s.threads[i]? with
        | none =>
            rw [hslot] at hdefined
            exact absurd rfl (hdefined _)
        | some slot =>
            cases slot with
            | none =>
                rw [hslot] at hdefined
                exact absurd rfl (hdefined _)
            | some w =>
                right
                refine ⟨w, ⟨i, hphase, hslot⟩, ?_⟩
                have hw := List.getElem?_eq_getElem (hslots.lt i w hslot)
                rcases h.worker hinside hw with hwaiting | hterminated
                · rw [hw, hwaiting]
                · rw [hterminated] at hw
                  simp only [hslot, require_bind_of hw] at hstep
                  exact absurd rfl (hstep _)
      · simp only [if_neg hlt] at hstep
        exact absurd rfl (hstep _)
  | freeing =>
      -- the pool is freed, or the step is undefined
      exfalso
      simp only [hphase] at hstep hdefined
      by_cases hwaits : s.SomeoneWaits
      · rw [if_pos hwaits] at hdefined
        exact hdefined _ rfl
      · simp only [if_neg hwaits] at hstep
        exact hstep _ rfl

end Still

variable {minThrNum maxThrNum waitExitThrNum : ℤ} {initial : List Task} {findsTerminated : Bool}
  {es : List PoolEvent}

/-- What holds in every state of the pool. -/
structure Kept (minThrNum maxThrNum : ℤ) (stale : ℕ → Prop) (s : Threadpool) : Prop where
  closing : s.Closing stale
  placed : s.Placed
  counted : s.Counted minThrNum maxThrNum

theorem Kept.step {stale : ℕ → Prop} (hmin : 1 ≤ minThrNum) (h : s.Kept minThrNum maxThrNum stale)
    (hstale : ∀ w, e = .shutDownInside (.worker w) → stale w) (hstep : s.step e = ok s') :
    s'.Kept minThrNum maxThrNum stale := by
  have hact := (acts_of_step hstep).1
  exact ⟨h.closing.step (hmin.trans h.counted.min_le) hstale hstep, h.placed.acts hact,
    h.counted.acts hact⟩

/-- The worker whose section contains the store finds the queue empty, and begins to wait behind the
broadcast. -/
example : reaches step [.create, .create, .shutDownInside (.worker 0), .adjust none, .destroy,
    .destroy, .destroy, .enter 0] (threadpoolCreate 1 1 [⟨0, none⟩] 0 true)
    (fun s => s.destroy = .joining 0 ∧ s.workers = [.waiting]) = true := by
  decide +kernel

end Threadpool

end SafeTransmission
