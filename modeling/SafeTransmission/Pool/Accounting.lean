import SafeTransmission.Pool.Wakeups

/-!
# The workers of the thread pool

Three kinds of threads change the counters and the slots of the pool, and
`adjust_thread` decides by what it has read some time ago.  It looks again under the lock
before it creates a thread, and so does a worker before it exits; therefore the numbers
agree with the threads that are there (`accounted`), whatever was in the memory of
`wait_exit_thr_num`.

## Strategy

* `Placed`: each worker that has not terminated is in a slot, and no slot has two.  The loop of
  `adjust_thread` only takes slots that nobody needs (`terminated_of_slotFree`).
* `Counted`: `busy_thr_num` is the number of workers that count themselves as busy, and, up to the
  shutdown, `live_thr_num` that of the workers that do not exit.  A step of a worker changes a
  counter together with its phase (`Counted.setBusy`, `Counted.retire`).
* What `adjust_thread` has read earlier does not enter, since it reads again under the lock
  (`Counted.grow`).
-/

namespace SafeTransmission

open Outcome

namespace ThreadPhase

/-- The worker has counted itself as busy. -/
def isBusy : ThreadPhase → Bool
  | running _ _ | finished _ _ => true
  | _ => false

theorem live_of_busy {phase : ThreadPhase} (h : phase.isBusy = true) : phase.isLive = true := by
  cases phase with
  | running | finished => rfl
  | _ => cases h

theorem live_of_testing (phase : ThreadPhase) (h : phase.isTesting = true) :
    phase.isLive = true := by
  cases phase with
  | starting | woken => rfl
  | _ => cases h

theorem busy_of_testing (phase : ThreadPhase) (h : phase.isTesting = true) :
    phase.isBusy = false := by
  cases phase with
  | starting | woken => rfl
  | _ => cases h

theorem ne_terminated_of_testing (phase : ThreadPhase) (h : phase.isTesting = true) :
    phase ≠ .terminated := by
  rintro rfl
  cases h

theorem live_wake (phase : ThreadPhase) : phase.wake.isLive = phase.isLive := by
  cases phase <;> rfl

theorem busy_wake (phase : ThreadPhase) : phase.wake.isBusy = phase.isBusy := by
  cases phase <;> rfl

end ThreadPhase

namespace Threadpool

variable {s s' : Threadpool} {e : PoolEvent}

/-! ## Slots -/

/-- Every thread that has not terminated is in one slot. -/
structure Slots (threads : List (Option ℕ)) (workers : List ThreadPhase) : Prop where
  lt : ∀ (i w : ℕ), threads[i]? = some (some w) → w < workers.length
  inj : ∀ (i j w : ℕ), threads[i]? = some (some w) → threads[j]? = some (some w) → i = j
  placed : ∀ (w : ℕ) (phase : ThreadPhase), workers[w]? = some phase → phase ≠ .terminated →
    ∃ i : ℕ, threads[i]? = some (some w)

namespace Slots

variable {threads : List (Option ℕ)} {workers workers' : List ThreadPhase} {w : ℕ}
  {a b : ThreadPhase}

theorem set (h : Slots threads workers) (hw : workers[w]? = some a) (ha : a ≠ .terminated)
    (b : ThreadPhase) : Slots threads (workers.set w b) where
  lt i v hv := by
    rw [List.length_set]
    exact h.lt i v hv
  inj := h.inj
  placed := by
    intro v phase hv halive
    rw [getElem?_set_of_some hw] at hv
    split at hv
    · rename_i hsame
      exact hsame ▸ h.placed w a hw ha
    · exact h.placed v phase hv halive

theorem signals (h : Slots threads workers) (hsignals : Signals workers workers') :
    Slots threads workers' := by
  cases hsignals with
  | nobody => exact h
  | woken w hw => exact h.set hw (by simp) .woken

theorem wake (h : Slots threads workers) : Slots threads (workers.map ThreadPhase.wake) where
  lt i w hw := by
    rw [List.length_map]
    exact h.lt i w hw
  inj := h.inj
  placed := by
    intro w phase hw halive
    rw [List.getElem?_map, Option.map_eq_some_iff] at hw
    obtain ⟨old, hold, rfl⟩ := hw
    apply h.placed w old hold
    rintro rfl
    exact halive rfl

theorem create (h : Slots threads workers) {i : ℕ} {slot : Option ℕ} (hi : threads[i]? = some slot)
    (hfree : ∀ w, slot = some w → workers[w]? = some .terminated) :
    Slots (threads.set i (some workers.length)) (workers ++ [.starting]) where
  lt := by
    intro j w hj
    rw [List.length_append, List.length_singleton]
    rw [getElem?_set_of_some hi] at hj
    split at hj
    · cases hj
      exact Nat.lt_succ_self _
    · exact Nat.lt_add_right 1 (h.lt j w hj)
  inj := by
    -- the number of the new thread is in no other slot
    have hnew : ∀ j : ℕ, threads[j]? ≠ some (some workers.length) :=
      fun j hj => (h.lt j _ hj).false
    intro j k w hj hk
    rw [getElem?_set_of_some hi] at hj hk
    split at hj <;> split at hk
    · rename_i hji hki
      exact hji.trans hki.symm
    · cases hj
      exact absurd hk (hnew k)
    · cases hk
      exact absurd hj (hnew j)
    · exact h.inj j k w hj hk
  placed := by
    intro w phase hw halive
    rcases getElem?_concat hw with hw | ⟨rfl, rfl⟩
    · obtain ⟨j, hj⟩ := h.placed w phase hw halive
      refine ⟨j, ?_⟩
      rw [getElem?_set_of_some hi, if_neg ?_, hj]
      rintro rfl
      -- the slot would hold a thread that has terminated
      have hterminated := hfree w (Option.some.inj (hi.symm.trans hj))
      cases hw.symm.trans hterminated
      exact halive rfl
    · exact ⟨i, by rw [getElem?_set_of_some hi, if_pos rfl]⟩

end Slots

theorem slotFree_iff {i : ℕ} : s.slotFree i = true ↔
    ∃ slot, s.threads[i]? = some slot ∧ ∀ w, slot = some w →
      s.findsTerminated = false ∧ s.workers[w]? = some .terminated := by
  unfold slotFree isThreadAlive
  split
  · rename_i hslot
    simp [hslot]
  · rename_i w hslot
    simp [hslot]
  · rename_i hslot
    simp [hslot]

theorem terminated_of_slotFree {i : ℕ} (h : s.slotFree i = true) :
    ∃ slot, s.threads[i]? = some slot ∧ ∀ w, slot = some w → s.workers[w]? = some .terminated := by
  obtain ⟨slot, hslot, hterminated⟩ := slotFree_iff.mp h
  exact ⟨slot, hslot, fun w hw => (hterminated w hw).2⟩

/-- The slots of a pool, and those that `threadpool_create` still has to fill. -/
structure Placed (s : Threadpool) : Prop where
  slots : Slots s.threads s.workers
  empty : ∀ i, s.creating = some i → ∀ j w : ℕ, i ≤ j → s.threads[j]? ≠ some (some w)

theorem placed_create (minThrNum maxThrNum waitExitThrNum : ℤ) (initial : List Task) (findsTerminated : Bool) :
    (threadpoolCreate minThrNum maxThrNum initial waitExitThrNum findsTerminated).Placed := by
  have hnone : ∀ j w : ℕ, (List.replicate maxThrNum.toNat (none : Option ℕ))[j]? ≠ some (some w) := by
    intro j w hj
    rw [List.getElem?_replicate] at hj
    split at hj
    · cases hj
    · cases hj
  refine ⟨⟨?_, ?_, ?_⟩, fun _ _ j w _ => hnone j w⟩
  · exact fun j w hj => absurd hj (hnone j w)
  · exact fun j _ w hj => absurd hj (hnone j w)
  · simp [threadpoolCreate]

theorem Placed.acts (h : s.Placed) (hact : s.Acts e s') : s'.Placed := by
  cases hact with
  | created i hcreating hmin hlt =>
      have hslot := List.getElem?_eq_getElem hlt
      have hempty : ∀ w, s.threads[i] = some w → s.workers[w]? = some .terminated := fun w hw =>
        absurd (hslot.trans (congrArg some hw)) (h.empty i hcreating i w le_rfl)
      refine ⟨h.slots.create hslot hempty, ?_⟩
      rintro _ ⟨⟩ j w hle hj
      change (s.threads.set i (some s.workers.length))[j]? = some (some w) at hj
      rw [getElem?_set_of_some hslot, if_neg (by omega)] at hj
      exact h.empty i hcreating j w (by omega) hj
  | returned i hcreating => exact ⟨h.slots, by simp⟩
  | waits e w n htests =>
      obtain ⟨phase, hw, htesting⟩ := htests.exists_phase
      exact ⟨h.slots.set hw (phase.ne_terminated_of_testing htesting) _, h.empty⟩
  | leaves e w n htests =>
      obtain ⟨phase, hw, htesting⟩ := htests.exists_phase
      exact ⟨h.slots.set hw (phase.ne_terminated_of_testing htesting) _, h.empty⟩
  | dequeues e w n task htests =>
      obtain ⟨phase, hw, htesting⟩ := htests.exists_phase
      exact ⟨h.slots.set hw (phase.ne_terminated_of_testing htesting) _, h.empty⟩
  | retires w shutdown hw => exact ⟨h.slots.set hw (by simp) _, h.empty⟩
  | wakesUp w hw => exact ⟨h.slots.set hw (by simp) _, h.empty⟩
  | startsWorking w k task hw => exact ⟨h.slots.set hw (by simp) _, h.empty⟩
  | finishes w k task hw => exact ⟨h.slots.set hw (by simp) _, h.empty⟩
  | endsWorking w k task hw => exact ⟨h.slots.set hw (by simp) _, h.empty⟩
  | exits w hw => exact ⟨h.slots.set hw (by simp) _, h.empty⟩
  | enqueues e p task old workers _ _ hsignals => exact ⟨h.slots.signals hsignals, h.empty⟩
  | grows target phase _ _ hcreating =>
      -- the loop only takes slots of threads that have terminated
      have hslots := grow_keeps (fun s => Slots s.threads s.workers)
        (fun s i hs hfree _ => by
          obtain ⟨slot, hslot, hterminated⟩ := terminated_of_slotFree hfree
          exact hs.create hslot hterminated) s.threads.length 0 0
        (s := { s with adjust := phase }) h.slots
      refine ⟨hslots, ?_⟩
      rw [grow_eq Threadpool.creating fun _ _ => rfl]
      intro i hi
      cases hcreating.symm.trans hi
  | signals target phase workers _ _ hsignals => exact ⟨h.slots.signals hsignals, h.empty⟩
  | broadcasts => exact ⟨h.slots.wake, h.empty⟩
  | _ => exact ⟨h.slots, h.empty⟩

/-! ## Counters -/

/-- How many workers `threadpool_create` still has to create. -/
def toCreate (s : Threadpool) : ℤ :=
  match s.creating with
  | some i => s.minThrNum - i
  | none => 0

/-- The counters of the pool and its workers. -/
structure Counted (minThrNum maxThrNum : ℤ) (s : Threadpool) : Prop where
  min_eq : s.minThrNum = minThrNum
  max_eq : s.maxThrNum = maxThrNum
  min_le : minThrNum ≤ s.liveThrNum
  le_max : s.liveThrNum ≤ maxThrNum
  created_le : ∀ i, s.creating = some i → (i : ℤ) ≤ s.minThrNum
  busy : s.busyThrNum = s.workers.countP ThreadPhase.isBusy
  /-- Up to the shutdown, which makes workers exit that are still counted. -/
  live : s.shutdown = false → s.liveThrNum = s.workers.countP ThreadPhase.isLive + s.toCreate

variable {minThrNum maxThrNum : ℤ}

theorem counted_create (hmin : 0 ≤ minThrNum) (hmax : minThrNum ≤ maxThrNum) (waitExitThrNum : ℤ)
    (initial : List Task) (findsTerminated : Bool) :
    (threadpoolCreate minThrNum maxThrNum initial waitExitThrNum findsTerminated).Counted
      minThrNum maxThrNum where
  min_eq := rfl
  max_eq := rfl
  min_le := le_rfl
  le_max := hmax
  created_le := by
    rintro _ ⟨⟩
    exact hmin
  busy := rfl
  live := fun _ => by simp [threadpoolCreate, toCreate]

theorem Counted.setBusy (h : s.Counted minThrNum maxThrNum) {w : ℕ} {a b : ThreadPhase} {n : ℤ}
    (hw : s.workers[w]? = some a) (hlive : b.isLive = a.isLive)
    (hbusy : n = ((s.workers.set w b).countP ThreadPhase.isBusy : ℤ)) :
    { s with workers := s.workers.set w b, busyThrNum := n }.Counted minThrNum maxThrNum where
  min_eq := h.min_eq
  max_eq := h.max_eq
  min_le := h.min_le
  le_max := h.le_max
  created_le := h.created_le
  busy := hbusy
  live := by
    intro hrunning
    change s.liveThrNum = ((s.workers.set w b).countP ThreadPhase.isLive : ℤ) + s.toCreate
    rw [countP_set_of_eq hw hlive]
    exact h.live hrunning

theorem Counted.set (h : s.Counted minThrNum maxThrNum) {w : ℕ} {a b : ThreadPhase}
    (hw : s.workers[w]? = some a) (hbusy : b.isBusy = a.isBusy) (hlive : b.isLive = a.isLive) :
    { s with workers := s.workers.set w b }.Counted minThrNum maxThrNum := by
  apply h.setBusy hw hlive
  rw [countP_set_of_eq hw hbusy]
  exact h.busy

theorem Counted.retire (h : s.Counted minThrNum maxThrNum) {w : ℕ} {n : ℤ}
    (hw : s.workers[w]? = some .woken) (hlive : s.minThrNum < s.liveThrNum) :
    { s with
      workers := s.workers.set w .exiting
      waitExitThrNum := n
      liveThrNum := s.liveThrNum - 1 }.Counted minThrNum maxThrNum := by
  have hmin := h.min_eq
  have hmax := h.le_max
  have hcount : (s.workers.set w .exiting).countP ThreadPhase.isLive + 1 =
      s.workers.countP ThreadPhase.isLive := countP_set_of_false hw rfl rfl
  have hbusy : (s.workers.set w .exiting).countP ThreadPhase.isBusy =
      s.workers.countP ThreadPhase.isBusy := countP_set_of_eq hw rfl
  refine { h with min_le := ?_, le_max := ?_, busy := ?_, live := fun hrunning => ?_ }
  · change minThrNum ≤ s.liveThrNum - 1
    omega
  · change s.liveThrNum - 1 ≤ maxThrNum
    omega
  · exact h.busy.trans (congrArg Nat.cast hbusy.symm)
  · have hold := h.live hrunning
    change s.liveThrNum - 1 =
      ((s.workers.set w .exiting).countP ThreadPhase.isLive : ℤ) + s.toCreate
    omega

theorem Counted.signals (h : s.Counted minThrNum maxThrNum) {workers : List ThreadPhase}
    (hsignals : Signals s.workers workers) :
    { s with workers := workers }.Counted minThrNum maxThrNum := by
  cases hsignals with
  | nobody => exact h
  | woken w hw => exact h.set hw rfl rfl

theorem Counted.wake (h : s.Counted minThrNum maxThrNum) :
    { s with workers := s.workers.map ThreadPhase.wake }.Counted minThrNum maxThrNum where
  min_eq := h.min_eq
  max_eq := h.max_eq
  min_le := h.min_le
  le_max := h.le_max
  created_le := h.created_le
  busy := by
    rw [List.countP_map, List.countP_congr fun phase _ => by rw [Function.comp, phase.busy_wake]]
    exact h.busy
  live := by
    intro hrunning
    rw [List.countP_map, List.countP_congr fun phase _ => by rw [Function.comp, phase.live_wake]]
    exact h.live hrunning

/-- A thread more is a live worker more. -/
theorem countP_create (workers : List ThreadPhase) :
    (workers ++ [ThreadPhase.starting]).countP ThreadPhase.isLive = workers.countP ThreadPhase.isLive + 1 ∧
      (workers ++ [ThreadPhase.starting]).countP ThreadPhase.isBusy = workers.countP ThreadPhase.isBusy := by
  simp [ThreadPhase.isLive, ThreadPhase.isBusy]

theorem Counted.grow (h : s.Counted minThrNum maxThrNum) (hcreating : s.creating = none)
    (left i add : ℕ) : (grow left i add s).Counted minThrNum maxThrNum := by
  refine (grow_keeps (fun s => s.Counted minThrNum maxThrNum ∧ s.creating = none) ?_ left i add
    ⟨h, hcreating⟩).1
  rintro s i ⟨h, hcreating⟩ - hroom
  obtain ⟨hlive, hbusy⟩ := countP_create s.workers
  have hmin := h.min_le
  have hmax := h.max_eq
  refine ⟨⟨h.min_eq, hmax, ?_, ?_, h.created_le, ?_, fun hrunning => ?_⟩, hcreating⟩
  · change minThrNum ≤ s.liveThrNum + 1
    omega
  · change s.liveThrNum + 1 ≤ maxThrNum
    omega
  · change s.busyThrNum = ((s.workers ++ [ThreadPhase.starting]).countP ThreadPhase.isBusy : ℤ)
    rw [hbusy]
    exact h.busy
  · change s.liveThrNum + 1 = ((s.workers ++ [ThreadPhase.starting]).countP ThreadPhase.isLive : ℤ) + s.toCreate
    rw [hlive, h.live hrunning]
    push_cast
    ring

/-- `threadpool_create` creates one more of the workers that it has counted already. -/
theorem Counted.created (h : s.Counted minThrNum maxThrNum) {i : ℕ} (hcreating : s.creating = some i)
    (hmin : (i : ℤ) < s.minThrNum) :
    { s.createThread i with creating := some (i + 1) }.Counted minThrNum maxThrNum := by
  obtain ⟨hlive, hbusy⟩ := countP_create s.workers
  refine { h with created_le := ?_, busy := ?_, live := fun hrunning => ?_ }
  · rintro _ ⟨⟩
    change ((i + 1 : ℕ) : ℤ) ≤ s.minThrNum
    omega
  · change s.busyThrNum = ((s.workers ++ [ThreadPhase.starting]).countP ThreadPhase.isBusy : ℤ)
    rw [hbusy]
    exact h.busy
  · have hold := h.live hrunning
    simp only [toCreate, hcreating] at hold
    change s.liveThrNum = ((s.workers ++ [ThreadPhase.starting]).countP ThreadPhase.isLive : ℤ) +
      (s.minThrNum - (i + 1 : ℕ))
    rw [hlive]
    omega

theorem Counted.acts (h : s.Counted minThrNum maxThrNum) (hact : s.Acts e s') :
    s'.Counted minThrNum maxThrNum := by
  cases hact with
  | created i hcreating hmin => exact h.created hcreating hmin
  | returned i hcreating hmin =>
      have hle := h.created_le i hcreating
      refine { h with created_le := by simp, live := fun hrunning => ?_ }
      have hlive := h.live hrunning
      simp only [toCreate, hcreating] at hlive
      change s.liveThrNum = (s.workers.countP ThreadPhase.isLive : ℤ) + 0
      omega
  | waits e w n htests =>
      -- a worker that tests the queue is live, and not busy
      obtain ⟨phase, hw, htesting⟩ := htests.exists_phase
      exact { h.set (b := .waiting) hw (phase.busy_of_testing htesting).symm
        (phase.live_of_testing htesting).symm with }
  | leaves e w n htests hreads =>
      -- only behind the shutdown, where `live_thr_num` is not kept
      have hbusy : (s.workers.set w .exiting).countP ThreadPhase.isBusy =
          s.workers.countP ThreadPhase.isBusy := by
        obtain ⟨phase, hw, htesting⟩ := htests.exists_phase
        exact countP_set_of_eq hw (phase.busy_of_testing htesting).symm
      refine { h with busy := ?_, live := fun hrunning => ?_ }
      · exact h.busy.trans (congrArg Nat.cast hbusy.symm)
      · cases hreads.of_running hrunning
  | dequeues e w n task htests =>
      obtain ⟨phase, hw, htesting⟩ := htests.exists_phase
      exact { h.set (b := .dequeued s.dequeued.length task) hw (phase.busy_of_testing htesting).symm
        (phase.live_of_testing htesting).symm with }
  | retires w shutdown hw hexit hlive => exact { h.retire (n := s.waitExitThrNum - 1) hw hlive with }
  | wakesUp w hw => exact h.set hw rfl rfl
  | startsWorking w k task hw =>
      have hcount : (s.workers.set w (.running k task)).countP ThreadPhase.isBusy =
          s.workers.countP ThreadPhase.isBusy + 1 := countP_set_of_true hw rfl rfl
      have hbusy := h.busy
      exact { h.setBusy (b := .running k task) (n := s.busyThrNum + 1) hw rfl (by omega) with }
  | finishes w k task hw => exact { h.set (b := .finished k task) hw rfl rfl with }
  | endsWorking w k task hw =>
      have hcount : (s.workers.set w .starting).countP ThreadPhase.isBusy + 1 =
          s.workers.countP ThreadPhase.isBusy := countP_set_of_false hw rfl rfl
      have hbusy := h.busy
      exact h.setBusy hw rfl (by omega)
  | exits w hw => exact h.set hw rfl rfl
  | enqueues e p task old workers _ _ hsignals => exact { h.signals hsignals with }
  | grows target phase _ _ hcreating =>
      exact Counted.grow (s := { s with adjust := phase }) { h with } hcreating _ _ _
  | signals target phase workers _ _ hsignals => exact { h.signals hsignals with }
  | shutsDown | shutsDownInside => exact { h with live := by simp }
  | broadcasts => exact { h.wake with }
  | _ => exact { h with }

/-! ## Runs -/

/-- The counters and the slots tell the truth about the workers. -/
structure Accounted (minThrNum maxThrNum : ℤ) (s : Threadpool) : Prop where
  min_le : minThrNum ≤ s.liveThrNum
  le_max : s.liveThrNum ≤ maxThrNum
  live : s.liveThrNum = s.workers.countP ThreadPhase.isLive
  slot : ∀ (w : ℕ) (phase : ThreadPhase), s.workers[w]? = some phase → phase.isLive = true →
    ∃! i : ℕ, s.threads[i]? = some (some w)
  busy_nonneg : 0 ≤ s.busyThrNum
  busy_le : s.busyThrNum ≤ s.liveThrNum

theorem accounted_of_counted (hplaced : s.Placed) (hcounted : s.Counted minThrNum maxThrNum)
    (hreturned : s.creating = none) (hrunning : s.shutdown = false) :
    s.Accounted minThrNum maxThrNum := by
  have hlive : s.liveThrNum = s.workers.countP ThreadPhase.isLive := by
    have hcount := hcounted.live hrunning
    simp only [toCreate, hreturned, add_zero] at hcount
    exact hcount
  have hbusy := hcounted.busy
  have hle : s.workers.countP ThreadPhase.isBusy ≤ s.workers.countP ThreadPhase.isLive :=
    List.countP_mono_left fun phase _ => ThreadPhase.live_of_busy
  refine ⟨hcounted.min_le, hcounted.le_max, hlive, ?_, by omega, by omega⟩
  intro w phase hw hphase
  have halive : phase ≠ .terminated := by
    rintro rfl
    cases hphase
  obtain ⟨i, hi⟩ := hplaced.slots.placed w phase hw halive
  exact ⟨i, hi, fun j hj => hplaced.slots.inj j i w hj hi⟩

/-- In every state before a shutdown, in any order of the steps and whatever
`wait_exit_thr_num` was at the beginning, the workers are accounted for. -/
theorem accounted {waitExitThrNum : ℤ} {initial : List Task} {findsTerminated : Bool}
    {es : List PoolEvent}
    (hmin : 0 ≤ minThrNum) (hmax : minThrNum ≤ maxThrNum)
    (hrun : run step es
      (threadpoolCreate minThrNum maxThrNum initial waitExitThrNum findsTerminated) = ok s)
    (hreturned : s.creating = none) (hrunning : s.shutdown = false) :
    s.Accounted minThrNum maxThrNum := by
  have hkeep : ∀ (s : Threadpool) e s', s.Placed ∧ s.Counted minThrNum maxThrNum → s.step e = ok s' →
      s'.Placed ∧ s'.Counted minThrNum maxThrNum := by
    intro s e s' h hstep
    have hact := (acts_of_step hstep).1
    exact ⟨h.1.acts hact, h.2.acts hact⟩
  obtain ⟨hplaced, hcounted⟩ := inv_of_run
    (fun s => s.Placed ∧ s.Counted minThrNum maxThrNum) hkeep
    ⟨placed_create _ _ _ _ _, counted_create hmin hmax _ _ _⟩ hrun
  exact accounted_of_counted hplaced hcounted hreturned hrunning

/-- A pool that grows from one worker to two. -/
theorem accounted_grown :
    ∃ s, run step ([.create, .create] ++ addTasks 0 10 ++ adjusts 5)
        (threadpoolCreate 1 2 (List.replicate 10 ⟨0, none⟩) 7 true) = ok s ∧ s.liveThrNum = 2 ∧
      s.Accounted 1 2 := by
  have hreached : reaches step ([.create, .create] ++ addTasks 0 10 ++ adjusts 5)
      (threadpoolCreate 1 2 (List.replicate 10 ⟨0, none⟩) 7 true)
      (fun s => s.creating = none ∧ s.shutdown = false ∧ s.liveThrNum = 2) = true := by
    decide +kernel
  obtain ⟨s, hrun, hs⟩ := exists_of_reaches hreached
  obtain ⟨hreturned, hrunning, hlive⟩ := of_decide_eq_true hs
  exact ⟨s, hrun, hlive, accounted (by norm_num) (by norm_num) hrun hreturned hrunning⟩

end Threadpool

end SafeTransmission
