import SafeTransmission.Pool.Accounting

/-!
# The end of the thread pool

`threadpool_destroy` waits for the threads in the first `live_thr_num` slots and then frees the
pool.  Workers that exit early leave their slots anywhere, so the workers that are left need not be
in the first slots; and a worker that still takes its early exit after the shutdown makes
`threadpool_destroy` wait for one thread less.

`adjust_thread` may still create threads after the shutdown.  They take the lowest slots that are
free, and do no harm as long as all slots behind those that are joined are free.  Where
`pthread_kill` finds threads that have terminated, a slot that was used once is never free again.

If all threads that have not terminated are in the first slots when the pool is shut down, no worker
takes its early exit later, and no slot that is not free stands in the way of new threads, then no
thread is left when the pool is freed (`terminated_of_freed`).

## Strategy

* A thread that has terminated stays so (`terminated_of_acts`), so what has been joined remains
  joined.
* `Covered` says that the threads that have not terminated are in the slots that are joined.  A new
  thread keeps it because the loop of `adjust_thread` comes to the first slot behind them at the
  latest (`Covered.grow`).
* When `adjust_thread` has ended there are no new threads (`settled_of_acts`), and the joins take
  the covered slots one by one (`Ending`).
-/

namespace SafeTransmission

open Outcome

/-- A step of a worker. -/
def PoolEvent.byWorker : PoolEvent → Bool
  | enter _ | wakeUp _ | resume _ | startWorking _ | finish _ | endWorking _ | exit _ => true
  | _ => false

namespace Threadpool

variable {s s' : Threadpool} {e : PoolEvent}

/-- The threads that have not terminated are in the slots that are joined. -/
structure Covered (s : Threadpool) : Prop where
  nonneg : 0 ≤ s.liveThrNum
  lt : ∀ (i w : ℕ) (phase : ThreadPhase), s.threads[i]? = some (some w) →
    s.workers[w]? = some phase → phase ≠ .terminated → (i : ℤ) < s.liveThrNum

/-- The pool is shut down only when all threads are in the slots that are joined.  Later no worker
takes its early exit, and new threads find the slots empty that are not joined, where `pthread_kill`
finds threads that have terminated. -/
structure Joinable (s : Threadpool) (e : PoolEvent) : Prop where
  covered : e.byDestroy = true → s.destroy = .uncalled → s.Covered
  stays : ∀ w, e = .resume w → s.shutdown = true → ¬s.Retires w
  grows : s.shutdown = true → s.Growing → s.findsTerminated = true →
    ∀ i w : ℕ, s.liveThrNum ≤ i → s.threads[i]? ≠ some (some w)

/-! ## Threads that have terminated -/

theorem terminated_set {workers : List ThreadPhase} {v w : ℕ} {a : ThreadPhase}
    (h : workers[v]? = some .terminated) (hw : workers[w]? = some a) (ha : a ≠ .terminated)
    (b : ThreadPhase) : (workers.set w b)[v]? = some .terminated := by
  rw [getElem?_set_of_some hw, if_neg, h]
  rintro rfl
  cases h.symm.trans hw
  exact ha rfl

theorem Signals.terminated {workers workers' : List ThreadPhase} {v : ℕ}
    (hsignals : Signals workers workers') (h : workers[v]? = some .terminated) :
    workers'[v]? = some .terminated := by
  cases hsignals with
  | nobody => exact h
  | woken w hw => exact terminated_set h hw (by simp) _

theorem terminated_of_acts {v : ℕ} (h : s.workers[v]? = some .terminated) (hact : s.Acts e s') :
    s'.workers[v]? = some .terminated := by
  cases hact with
  | created => exact getElem?_append_of_some h _
  | waits e w n htests =>
      obtain ⟨phase, hw, htesting⟩ := htests.exists_phase
      exact terminated_set h hw (phase.ne_terminated_of_testing htesting) _
  | leaves e w n htests =>
      obtain ⟨phase, hw, htesting⟩ := htests.exists_phase
      exact terminated_set h hw (phase.ne_terminated_of_testing htesting) _
  | dequeues e w n task htests =>
      obtain ⟨phase, hw, htesting⟩ := htests.exists_phase
      exact terminated_set h hw (phase.ne_terminated_of_testing htesting) _
  | retires w shutdown hw => exact terminated_set h hw (by simp) _
  | wakesUp w hw => exact terminated_set h hw (by simp) _
  | startsWorking w k task hw => exact terminated_set h hw (by simp) _
  | finishes w k task hw => exact terminated_set h hw (by simp) _
  | endsWorking w k task hw => exact terminated_set h hw (by simp) _
  | exits w hw => exact terminated_set h hw (by simp) _
  | enqueues e p task old workers _ _ hsignals => exact hsignals.terminated h
  | grows target phase =>
      exact grow_keeps (fun s => s.workers[v]? = some .terminated)
        (fun s i hs _ _ => getElem?_append_of_some hs _) _ _ _ h
  | signals target phase workers _ _ hsignals => exact hsignals.terminated h
  | broadcasts =>
      rw [List.getElem?_map, h]
      rfl
  | _ => exact h

/-! ## Threads in the first slots -/

namespace Covered

theorem set (h : s.Covered) {w : ℕ} {a : ThreadPhase} (hw : s.workers[w]? = some a)
    (ha : a ≠ .terminated) (b : ThreadPhase) : { s with workers := s.workers.set w b }.Covered where
  nonneg := h.nonneg
  lt := by
    intro i v phase hslot hv halive
    change (s.workers.set w b)[v]? = some phase at hv
    rw [getElem?_set_of_some hw] at hv
    split at hv
    · rename_i hsame
      exact h.lt i w a (hsame ▸ hslot) hw ha
    · exact h.lt i v phase hslot hv halive

theorem signals (h : s.Covered) {workers : List ThreadPhase} (hsignals : Signals s.workers workers) :
    { s with workers := workers }.Covered := by
  cases hsignals with
  | nobody => exact h
  | woken w hw => exact h.set hw (by simp) _

theorem wake (h : s.Covered) : { s with workers := s.workers.map ThreadPhase.wake }.Covered where
  nonneg := h.nonneg
  lt := by
    intro i v phase hslot hv halive
    change (s.workers.map ThreadPhase.wake)[v]? = some phase at hv
    rw [List.getElem?_map, Option.map_eq_some_iff] at hv
    obtain ⟨old, hold, rfl⟩ := hv
    apply h.lt i v old hslot hold
    rintro rfl
    exact halive rfl

theorem create (h : s.Covered) (hslots : Slots s.threads s.workers) {i : ℕ} {slot : Option ℕ}
    (hslot : s.threads[i]? = some slot) (hle : (i : ℤ) ≤ s.liveThrNum) :
    { s.createThread i with liveThrNum := s.liveThrNum + 1 }.Covered where
  nonneg := by
    have hnonneg := h.nonneg
    change 0 ≤ s.liveThrNum + 1
    omega
  lt := by
    intro j w phase hj hw halive
    change (s.threads.set i (some s.workers.length))[j]? = some (some w) at hj
    change (s.workers ++ [.starting])[w]? = some phase at hw
    change (j : ℤ) < s.liveThrNum + 1
    rw [getElem?_set_of_some hslot] at hj
    split at hj
    · omega
    · rw [List.getElem?_append_left (hslots.lt j w hj)] at hw
      have hlt := h.lt j w phase hj hw halive
      omega

end Covered

theorem Covered.slotFree (h : s.Covered) (hslots : Slots s.threads s.workers)
    (hempty : s.findsTerminated = true → ∀ i w : ℕ, s.liveThrNum ≤ i → s.threads[i]? ≠ some (some w))
    {i : ℕ} (hi : i < s.threads.length) (hle : s.liveThrNum ≤ i) : s.slotFree i = true := by
  refine slotFree_iff.mpr ⟨s.threads[i], List.getElem?_eq_getElem hi, fun w hslot => ?_⟩
  have hthread : s.threads[i]? = some (some w) := by rw [List.getElem?_eq_getElem hi, hslot]
  have hw := List.getElem?_eq_getElem (hslots.lt i w hthread)
  refine ⟨Bool.eq_false_of_not_eq_true fun hfinds => hempty hfinds i w hle hthread, ?_⟩
  rw [hw]
  by_contra halive
  have hlt := h.lt i w _ hthread hw fun hterminated => halive (congrArg some hterminated)
  omega

/-- `adjust_thread` comes to the first slot behind those that are joined only when all before it are
taken, and that one is free. -/
theorem Covered.grow {left i add : ℕ} (h : s.Covered) (hslots : Slots s.threads s.workers)
    (hempty : s.findsTerminated = true → ∀ i w : ℕ, s.liveThrNum ≤ i → s.threads[i]? ≠ some (some w))
    (hleft : i + left = s.threads.length) (hi : (i : ℤ) ≤ s.liveThrNum) :
    (grow left i add s).Covered := by
  induction left generalizing i add s with
  | zero => exact h
  | succ left ih =>
      rw [Threadpool.grow]
      split
      · split
        · rename_i hfree
          obtain ⟨slot, hslot, hterminated⟩ := terminated_of_slotFree hfree
          apply ih (h.create hslots hslot hi)
          · exact hslots.create hslot hterminated
          · intro hfinds j w hle hj
            change s.liveThrNum + 1 ≤ j at hle
            change (s.threads.set i (some s.workers.length))[j]? = some (some w) at hj
            rw [getElem?_set_of_some hslot, if_neg (by omega)] at hj
            exact hempty hfinds j w (by omega) hj
          · change i + 1 + left = (s.threads.set i (some s.workers.length)).length
            rw [List.length_set]
            omega
          · change ((i + 1 : ℕ) : ℤ) ≤ s.liveThrNum + 1
            omega
        · rename_i hnot
          apply ih h hslots hempty (by omega)
          have hlt : (i : ℤ) < s.liveThrNum := by
            by_contra hle
            exact hnot (h.slotFree hslots hempty (by omega) (by omega))
          omega
      · exact h

theorem Covered.acts (h : s.Covered) (hslots : Slots s.threads s.workers)
    (hcreating : s.creating = none) (hshutdown : s.shutdown = true) (hjoinable : s.Joinable e)
    (hact : s.Acts e s') : s'.Covered := by
  cases hact with
  | created i hi =>
      rw [hcreating] at hi
      cases hi
  | waits e w n htests =>
      obtain ⟨phase, hw, htesting⟩ := htests.exists_phase
      have halive := phase.ne_terminated_of_testing htesting
      exact { h.set (b := .waiting) hw halive with }
  | leaves e w n htests =>
      obtain ⟨phase, hw, htesting⟩ := htests.exists_phase
      have halive := phase.ne_terminated_of_testing htesting
      exact { h.set (b := .exiting) hw halive with }
  | dequeues e w n task htests =>
      obtain ⟨phase, hw, htesting⟩ := htests.exists_phase
      have halive := phase.ne_terminated_of_testing htesting
      exact { h.set (b := .dequeued s.dequeued.length task) hw halive with }
  | retires w shutdown hw hexit hlive =>
      exact absurd ⟨hw, hexit, hlive⟩ (hjoinable.stays w rfl hshutdown)
  | wakesUp w hw => exact h.set hw (by simp) _
  | startsWorking w k task hw => exact { h.set (b := .running k task) hw (by simp) with }
  | finishes w k task hw => exact { h.set (b := .finished k task) hw (by simp) with }
  | endsWorking w k task hw => exact { h.set (b := .starting) hw (by simp) with }
  | exits w hw => exact h.set hw (by simp) _
  | enqueues e p task old workers _ _ hsignals => exact { h.signals hsignals with }
  | grows target phase hgrowing =>
      exact Covered.grow (s := { s with adjust := phase }) { h with } hslots
        (hjoinable.grows hshutdown hgrowing) (Nat.zero_add _) h.nonneg
  | signals target phase workers _ _ hsignals => exact { h.signals hsignals with }
  | broadcasts => exact { h.wake with }
  | _ => exact { h with }

/-! ## `threadpool_destroy` -/

theorem Signals.length_eq {workers workers' : List ThreadPhase} (h : Signals workers workers') :
    workers'.length = workers.length := by
  cases h with
  | nobody => rfl
  | woken w => exact List.length_set

theorem creating_of_acts (hcreating : s.creating = none) (hact : s.Acts e s') :
    s'.creating = none := by
  cases hact with
  | created i hi =>
      rw [hcreating] at hi
      cases hi
  | returned => rfl
  | grows target phase =>
      rw [grow_eq Threadpool.creating fun _ _ => rfl]
      exact hcreating
  | _ => exact hcreating

/-- When `adjust_thread` has ended, there are no new threads. -/
theorem settled_of_acts (hcreating : s.creating = none) (hended : s.adjust = .ended)
    (hact : s.Acts e s') :
    s'.adjust = .ended ∧ s'.threads = s.threads ∧ s'.workers.length = s.workers.length := by
  cases hact with
  | created i hi =>
      rw [hcreating] at hi
      cases hi
  | adjusts target phase hrunning => exact absurd hended hrunning
  | grows target phase _ hrunning => exact absurd hended hrunning
  | shrinks target phase n hrunning => exact absurd hended hrunning
  | signals target phase workers hrunning => exact absurd hended hrunning
  | enqueues e p task old workers _ _ hsignals => exact ⟨hended, rfl, hsignals.length_eq⟩
  | broadcasts => exact ⟨hended, rfl, List.length_map _⟩
  | _ => exact ⟨hended, rfl, by simp⟩

/-- The slots before `i` have been joined. -/
def Joined (s : Threadpool) (i : ℕ) : Prop :=
  ∀ j < i, ∃ w : ℕ, s.threads[j]? = some (some w) ∧ s.workers[w]? = some .terminated

/-- The pool on its way to the end. -/
structure Ending (s : Threadpool) : Prop where
  placed : s.Placed
  shutdown : s.destroy ≠ .uncalled → s.shutdown = true
  creating : s.destroy ≠ .uncalled → s.creating = none
  covered : s.destroy ≠ .uncalled → s.Covered
  ended : s.destroy ≠ .uncalled → s.destroy ≠ .joiningAdjust → s.adjust = .ended
  joined : ∀ i, s.destroy = .joining i → s.Joined i
  freed : s.destroy = .freeing ∨ s.destroy = .freed → ∀ phase ∈ s.workers, phase = .terminated

theorem ending_create (minThrNum maxThrNum waitExitThrNum : ℤ) (initial : List Task) (findsTerminated : Bool) :
    (threadpoolCreate minThrNum maxThrNum initial waitExitThrNum findsTerminated).Ending := by
  refine ⟨placed_create _ _ _ _ _, ?_, ?_, ?_, ?_, ?_, ?_⟩ <;> simp [threadpoolCreate]

theorem Ending.others (h : s.Ending) (hact : s.Acts e s') (hjoinable : s.Joinable e)
    (hdestroy : s'.destroy = s.destroy) (hshutdown : s'.shutdown = s.shutdown) : s'.Ending where
  placed := h.placed.acts hact
  shutdown hcalled := by
    rw [hdestroy] at hcalled
    exact hshutdown.trans (h.shutdown hcalled)
  creating hcalled := by
    rw [hdestroy] at hcalled
    exact creating_of_acts (h.creating hcalled) hact
  covered hcalled := by
    rw [hdestroy] at hcalled
    exact (h.covered hcalled).acts h.placed.slots (h.creating hcalled)
      (h.shutdown hcalled) hjoinable hact
  ended hcalled hjoining := by
    rw [hdestroy] at hcalled hjoining
    exact (settled_of_acts (h.creating hcalled) (h.ended hcalled hjoining) hact).1
  joined i hi := by
    rw [hdestroy] at hi
    have hcalled : s.destroy ≠ .uncalled := by simp [hi]
    have hended := h.ended hcalled (by simp [hi])
    obtain ⟨-, hthreads, -⟩ := settled_of_acts (h.creating hcalled) hended hact
    intro j hj
    obtain ⟨w, hslot, hw⟩ := h.joined i hi j hj
    exact ⟨w, by rw [hthreads, hslot], terminated_of_acts hw hact⟩
  freed hfreed := by
    rw [hdestroy] at hfreed
    have hcalled : s.destroy ≠ .uncalled := by
      rcases hfreed with hfreed | hfreed <;> simp [hfreed]
    have hended := h.ended hcalled (by rcases hfreed with hfreed | hfreed <;> simp [hfreed])
    -- nobody comes up any more, and those who have terminated stay so
    obtain ⟨-, -, hlength⟩ := settled_of_acts (h.creating hcalled) hended hact
    intro phase hphase
    obtain ⟨w, hw⟩ := List.getElem?_of_mem hphase
    have hlt : w < s.workers.length := by
      rw [← hlength]
      exact (List.getElem?_eq_some_iff.mp hw).1
    have hold : s.workers[w]? = some .terminated := by
      rw [List.getElem?_eq_getElem hlt, h.freed hfreed _ (List.getElem_mem hlt)]
    exact Option.some.inj (hw.symm.trans (terminated_of_acts hold hact))

theorem Ending.terminated (h : s.Ending) {i : ℕ} (hi : s.destroy = .joining i)
    (hend : ¬(i : ℤ) < s.liveThrNum) : ∀ phase ∈ s.workers, phase = .terminated := by
  intro phase hphase
  by_contra halive
  obtain ⟨w, hw⟩ := List.getElem?_of_mem hphase
  obtain ⟨j, hslot⟩ := h.placed.slots.placed w phase hw halive
  have hlt := (h.covered (by simp [hi])).lt j w phase hslot hw halive
  -- so the slot of the thread has been joined
  obtain ⟨v, hjoined, hv⟩ := h.joined i hi j (by omega)
  cases hslot.symm.trans hjoined
  cases hw.symm.trans hv
  exact halive rfl

theorem Ending.goOn (h : s.Ending) (hcalled : s.destroy ≠ .uncalled) (hplaced : s'.Placed)
    (hshutdown : s'.shutdown = s.shutdown) (hcreating : s'.creating = s.creating)
    (hcovered : s'.Covered) (hended : s'.adjust = .ended)
    (hjoined : ∀ i, s'.destroy = .joining i → s'.Joined i)
    (hfreed : s'.destroy = .freeing ∨ s'.destroy = .freed →
      ∀ phase ∈ s'.workers, phase = .terminated) : s'.Ending where
  placed := hplaced
  shutdown _ := hshutdown.trans (h.shutdown hcalled)
  creating _ := hcreating.trans (h.creating hcalled)
  covered _ := hcovered
  ended _ _ := hended
  joined := hjoined
  freed := hfreed

theorem Ending.step (h : s.Ending) (hjoinable : s.Joinable e) (hstep : s.step e = ok s') :
    s'.Ending := by
  have hact := (acts_of_step hstep).1
  have hplaced := h.placed.acts hact
  have hothers := h.others hact hjoinable
  cases hact with
  | shutsDown huncalled hcreating | shutsDownInside holder huncalled hcreating =>
      -- the condition says that all threads are in the slots that are joined
      refine ⟨hplaced, fun _ => rfl, fun _ => hcreating, fun _ => ?_, by simp, by simp, by simp⟩
      exact { hjoinable.covered rfl huncalled with }
  | joinsAdjust hphase hended =>
      have hcalled : s.destroy ≠ .uncalled := by simp [hphase]
      apply h.goOn hcalled hplaced rfl rfl _ hended (by simp) (by simp)
      exact { h.covered hcalled with }
  | broadcasts i hphase =>
      have hcalled : s.destroy ≠ .uncalled := by simp [hphase]
      have hended := h.ended hcalled (by simp [hphase])
      apply h.goOn hcalled hplaced rfl rfl _ hended (by simp) (by simp)
      exact { (h.covered hcalled).wake with }
  | endsBroadcasts i hphase =>
      have hcalled : s.destroy ≠ .uncalled := by simp [hphase]
      have hended := h.ended hcalled (by simp [hphase])
      apply h.goOn hcalled hplaced rfl rfl { h.covered hcalled with } hended _ (by simp)
      rintro _ ⟨⟩ j hj
      exact absurd hj (Nat.not_lt_zero j)
  | joins i w hphase hslot hterminated =>
      have hcalled : s.destroy ≠ .uncalled := by simp [hphase]
      have hended := h.ended hcalled (by simp [hphase])
      apply h.goOn hcalled hplaced rfl rfl { h.covered hcalled with } hended _ (by simp)
      rintro _ ⟨⟩ j hj
      -- the slots before this one, and this one
      rcases Nat.lt_succ_iff_lt_or_eq.mp hj with hj | rfl
      · exact h.joined i hphase j hj
      · exact ⟨w, hslot, hterminated⟩
  | frees i hphase hend =>
      have hcalled : s.destroy ≠ .uncalled := by simp [hphase]
      have hended := h.ended hcalled (by simp [hphase])
      apply h.goOn hcalled hplaced rfl rfl { h.covered hcalled with } hended (by simp)
      -- all slots that are covered have been joined
      exact fun _ => h.terminated hphase hend
  | freesPool hphase =>
      have hcalled : s.destroy ≠ .uncalled := by simp [hphase]
      have hended := h.ended hcalled (by simp [hphase])
      apply h.goOn hcalled hplaced rfl rfl { h.covered hcalled with } hended (by simp)
      exact fun _ => h.freed (Or.inl hphase)
  | grows target phase =>
      exact hothers (grow_eq Threadpool.destroy (fun _ _ => rfl) _ _ _ _)
        (grow_eq Threadpool.shutdown (fun _ _ => rfl) _ _ _ _)
  | _ => exact hothers rfl rfl

theorem step_of_terminated (h : ∀ phase ∈ s.workers, phase = .terminated)
    (hworker : e.byWorker = true) : s.step e = disabled := by
  have hnone : ∀ (w : ℕ) (phase : ThreadPhase), phase ≠ .terminated → s.workers[w]? ≠ some phase :=
    fun w phase hne hw => hne (h phase (List.mem_of_getElem? hw))
  have hact : s.act e = disabled := by
    cases e with
    | enter w => exact require_bind_of_not (hnone w _ (by simp)) _
    | wakeUp w => exact require_bind_of_not (hnone w _ (by simp)) _
    | resume w => exact require_bind_of_not (hnone w _ (by simp)) _
    | exit w => exact require_bind_of_not (hnone w _ (by simp)) _
    | startWorking w =>
        rw [act, startWorking]
        split
        · rename_i k task hw
          exact absurd hw (hnone w _ (by simp))
        · rfl
    | finish w =>
        rw [act, finish]
        split
        · rename_i k task hw
          exact absurd hw (hnone w _ (by simp))
        · rfl
    | endWorking w =>
        rw [act, endWorking]
        split
        · rename_i k task hw
          exact absurd hw (hnone w _ (by simp))
        · rfl
    | _ => cases hworker
  rw [Threadpool.step, hact, err_bind]

/-! ## Runs -/

/-- In every run that shuts the pool down while all threads are in the slots that are joined, and in
which later no worker takes its early exit and no thread is created behind a slot that was used, no
thread is left when the pool is freed, and none uses it any more. -/
theorem terminated_of_freed {minThrNum maxThrNum waitExitThrNum : ℤ} {initial : List Task}
    {findsTerminated : Bool} {es : List PoolEvent}
    (hes : EachStep step Joinable es
      (threadpoolCreate minThrNum maxThrNum initial waitExitThrNum findsTerminated))
    (hrun : run step es
      (threadpoolCreate minThrNum maxThrNum initial waitExitThrNum findsTerminated) = ok s)
    (hfreed : s.destroy = .freeing ∨ s.destroy = .freed) :
    (∀ phase ∈ s.workers, phase = .terminated) ∧
      ∀ e : PoolEvent, e.byWorker = true → s.step e = disabled := by
  have hending : s.Ending := inv_of_eachStep Ending
    (fun s e s' h hjoinable hstep => h.step hjoinable hstep) (ending_create _ _ _ _ _) hes hrun
  have hterminated := hending.freed hfreed
  exact ⟨hterminated, fun e hworker => step_of_terminated hterminated hworker⟩

/-- A test whether there is a worker for each slot from the shutdown on, and none is to exit. -/
def isFull (s : Threadpool) (e : PoolEvent) : Bool :=
  s.waitExitThrNum ≤ 0 && ((s.threads.length : ℤ) ≤ s.liveThrNum || !(e.byDestroy || s.shutdown))

theorem joinable_of_isFull (s : Threadpool) (e : PoolEvent) (h : s.isFull e = true) :
    s.Joinable e := by
  obtain ⟨hexit, hfull⟩ := Bool.and_eq_true_iff.mp h
  have hexit : s.waitExitThrNum ≤ 0 := of_decide_eq_true hexit
  have hfull : (e.byDestroy || s.shutdown) = true → (s.threads.length : ℤ) ≤ s.liveThrNum := by
    intro hends
    simpa [hends] using hfull
  refine ⟨fun hdestroy _ => ?_, fun w _ _ hretires => absurd hretires.2.1 (by omega),
    fun hshutdown _ _ i w hle hslot => ?_⟩
  · have hlength := hfull (by simp [hdestroy])
    refine ⟨(Int.natCast_nonneg _).trans hlength, fun i w phase hslot _ _ => ?_⟩
    have hlt := (List.getElem?_eq_some_iff.mp hslot).1
    omega
  · have hlength := hfull (by simp [hshutdown])
    have hlt := (List.getElem?_eq_some_iff.mp hslot).1
    omega

/-- A pool grows to two workers.  It is shut down while the first one is on its way to a task, which
it still takes. -/
def grownEnds : List PoolEvent :=
  [.create, .create] ++ addTasks 0 10 ++ adjusts 4 ++ [.shutDownInside (.worker 0), .enter 0,
    .adjust none, .adjust none, .enter 1, .exit 1] ++ [.startWorking 0, .finish 0, .endWorking 0,
    .enter 0, .exit 0] ++ List.replicate 8 .destroy

theorem terminated_of_freed_grown :
    ∃ s, run step grownEnds (threadpoolCreate 1 2 (List.replicate 10 ⟨0, none⟩) 0 true) = ok s ∧
      s.destroy = .freed ∧ (∀ phase ∈ s.workers, phase = .terminated) ∧
      ∀ e : PoolEvent, e.byWorker = true → s.step e = disabled := by
  have hjoinable : EachStep step Joinable grownEnds
      (threadpoolCreate 1 2 (List.replicate 10 ⟨0, none⟩) 0 true) :=
    EachStep.of_test joinable_of_isFull (by decide +kernel)
  have hreached : reaches step grownEnds
      (threadpoolCreate 1 2 (List.replicate 10 ⟨0, none⟩) 0 true) (fun s => s.destroy = .freed) =
        true := by
    decide +kernel
  obtain ⟨s, hrun, hs⟩ := exists_of_reaches hreached
  have hfreed := of_decide_eq_true hs
  exact ⟨s, hrun, hfreed, terminated_of_freed hjoinable hrun (Or.inr hfreed)⟩

/-- A pool grows to two workers, and the first of them exits.  The shutdown joins the first
slot only. -/
def firstExits : List PoolEvent :=
  [.create, .create] ++ addTasks 0 10 ++ adjusts 5 ++ runTasks 0 10 ++ [.enter 0] ++ adjusts 5 ++
    [.adjust (some 0)] ++ adjusts 10 ++ [.resume 0, .exit 0, .destroy, .adjust none, .destroy,
    .destroy, .destroy, .destroy, .destroy]

/-- The pool is freed while the second worker is on its way to the lock. -/
theorem not_terminated_firstExits :
    ¬∀ s, run step firstExits (threadpoolCreate 1 2 (List.replicate 10 ⟨0, none⟩) 0 true) = ok s →
      s.destroy = .freeing → ∀ phase ∈ s.workers, phase = .terminated := by
  intro hterminated
  have hreached : reaches step firstExits
      (threadpoolCreate 1 2 (List.replicate 10 ⟨0, none⟩) 0 true)
      (fun s => s.destroy = .freeing ∧ s.workers = [.terminated, .starting]) = true := by
    decide +kernel
  obtain ⟨s, hrun, hs⟩ := exists_of_reaches hreached
  obtain ⟨hfreed, hworkers⟩ := of_decide_eq_true hs
  have hstarting := hterminated s hrun hfreed .starting (by rw [hworkers]; simp)
  cases hstarting

end Threadpool

end SafeTransmission
