import SafeTransmission.Pool.Destroy
import SafeTransmission.Pool.Work

/-!
# The steps that are left after the shutdown

`toEnd` bounds the steps that the threads still take after `threadpool_destroy` has been called.
Every thread moves towards its end with each step: it finds the pool shut down wherever it tests it,
a signal or broadcast saves its thread a step, and the threads that `adjust_thread` still creates
are paid for by the steps that it has before it.

The only section that may go the other way is the one that contains the store of `shutdown`.  It may
block its thread or take a task.  There is one of them at most, and its cost is added as long as it
has not ended (`insideToEnd`).

As in `Works`, a thread that waits does not wake up without a signal.
-/

namespace SafeTransmission

open Outcome

/-- A step of a thread that is there, and no wake-up without a signal. -/
def PoolEvent.goesOn : PoolEvent → Bool
  | create | wakeUp _ | call _ | wakeCall _ => false
  | _ => true

/-- The steps of the worker until it has terminated, and the signal that it waits for. -/
def ThreadPhase.toEnd : ThreadPhase → ℕ
  | terminated => 0
  | exiting => 1
  | starting | woken => 2
  | waiting | finished _ _ => 3
  | running _ _ => 4
  | dequeued _ _ => 5

/-- The steps of the call until it has returned, and the broadcast that it waits for. -/
def CallPhase.toEnd : CallPhase → ℕ
  | returned => 0
  | unlocked => 1
  | entering | woken => 2
  | waiting => 3

/-- The steps of `adjust_thread` until it tests `shutdown`.  The threads that it creates have to end
and to be joined, too. -/
def AdjustPhase.toEnd : AdjustPhase → ℕ
  | ended => 0
  | testing => 1
  | signalling left => left + 2
  | shrinking _ _ => 13
  | growing _ _ _ => 54
  | sampled _ _ => 55
  | sleeping => 56

/-- The steps of `threadpool_destroy` for `live` threads. -/
def DestroyPhase.toEnd (live : ℤ) : DestroyPhase → ℕ
  | joiningAdjust => 2 * live.toNat + 4
  | broadcasting i => (live - i).toNat + live.toNat + 3
  | joining i => (live - i).toNat + 2
  | freeing => 1
  | uncalled | freed => 0

/-- What a section that contains the store of `shutdown` may still add. -/
def insideToEnd : Option Holder → ℕ
  | none => 0
  | some _ => 4

namespace Threadpool

variable {s s' : Threadpool} {e : PoolEvent}

/-- A bound for the steps that are left. -/
def toEnd (s : Threadpool) : ℕ :=
  (s.workers.map ThreadPhase.toEnd).sum + (s.calls.map fun call => call.phase.toEnd).sum +
    s.adjust.toEnd + s.destroy.toEnd s.liveThrNum + insideToEnd s.inside

/-! ## Every step is one less -/

theorem Signals.toEnd_le {workers workers' : List ThreadPhase} (h : Signals workers workers') :
    (workers'.map ThreadPhase.toEnd).sum ≤ (workers.map ThreadPhase.toEnd).sum := by
  cases h with
  | nobody => exact le_rfl
  | woken w hw =>
      have hsum := sum_map_set hw ThreadPhase.toEnd .woken
      simp only [ThreadPhase.toEnd] at hsum ⊢
      omega

theorem Turns.byWorker {p : ℕ} (h : s.Turns p e) : e.byWorker = false := by
  cases e with
  | add | wakeCall | goOn => rfl
  | _ => exact h.elim

theorem Turns.usesPool {p : ℕ} (h : s.Turns p e) : e.usesPool = true := by
  cases e with
  | add | wakeCall | goOn => rfl
  | _ => exact h.elim

end Threadpool

end SafeTransmission
