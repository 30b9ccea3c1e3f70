import SafeTransmission.Pool.Steps

/-!
# Calls that wait for room

A worker that takes a task wakes all calls of `threadpool_add` that wait, so a call waits
only while the queue is full (`full_of_waiting`).
-/

namespace SafeTransmission

open Outcome

namespace Threadpool

variable {s s' : Threadpool} {e : PoolEvent} {initial : List Task}

/-- A call waits only while the queue is full. -/
def WaitsForRoom (s : Threadpool) : Prop :=
  ∀ call ∈ s.calls, call.phase = .waiting → (s.queue.capacity : ℤ) ≤ s.queue.size

theorem wake_ne_waiting (call : AddCall) : call.wake.phase ≠ .waiting := by
  unfold AddCall.wake
  split
  · simp
  · assumption

theorem WaitsForRoom.acts (h : s.WaitsForRoom) (hact : s.Acts e s') : s'.WaitsForRoom := by
  cases hact with
  | dequeues e w n task =>
      -- a task less, and nobody waits any more
      intro call hmem hwaiting
      obtain ⟨old, -, rfl⟩ := List.mem_map.mp hmem
      exact absurd hwaiting (wake_ne_waiting old)
  | calls task => exact forall_mem_concat h (by simp)
  | moves e p call _ hfull => exact forall_mem_set h (fun hwaiting => (hfull hwaiting).ge) p
  | enqueues e p task =>
      -- a task more, also where there is no room for it
      intro call hmem hwaiting
      rcases List.mem_or_eq_of_mem_set hmem with hold | rfl
      · have hfull := h call hold hwaiting
        change (((s.queue.slots.set s.queue.rear task).length : ℕ) : ℤ) ≤ s.queue.size + 1
        rw [List.length_set]
        change (s.queue.slots.length : ℤ) ≤ s.queue.size at hfull
        omega
      · cases hwaiting
  | grows target phase =>
      unfold WaitsForRoom
      rw [grow_eq Threadpool.calls fun _ _ => rfl, grow_eq Threadpool.queue fun _ _ => rfl]
      exact h
  | _ => exact h

theorem WaitsForRoom.step (h : s.WaitsForRoom) (hstep : s.step e = ok s') : s'.WaitsForRoom :=
  h.acts (acts_of_step hstep).1

/-! ## Runs -/

/-- In every state that the threads reach in any order of their steps, before and after a
shutdown, a call of `threadpool_add` is blocked only while the queue is full. -/
theorem full_of_waiting {minThrNum maxThrNum waitExitThrNum : ℤ} {findsTerminated : Bool}
    {es : List PoolEvent}
    (hrun : run step es
      (threadpoolCreate minThrNum maxThrNum initial waitExitThrNum findsTerminated) = ok s)
    {call : AddCall} (hcall : call ∈ s.calls) (hwaiting : call.phase = .waiting) :
    (s.queue.capacity : ℤ) ≤ s.queue.size := by
  have hinit : (threadpoolCreate minThrNum maxThrNum initial waitExitThrNum
      findsTerminated).WaitsForRoom := by
    intro call hcall
    cases hcall
  exact inv_of_run WaitsForRoom (fun s e s' h hstep => h.step hstep) hinit hrun call
    hcall hwaiting

/-- The second call finds a queue of one slot full. -/
theorem full_of_waiting_oneSlot :
    ∃ s, run step [.create, .create, .call ⟨1, none⟩, .add 0 none, .call ⟨2, none⟩, .add 1 none]
        (threadpoolCreate 1 1 [⟨0, none⟩] 0 true) = ok s ∧ (s.queue.capacity : ℤ) ≤ s.queue.size := by
  have hreached : reaches step [.create, .create, .call ⟨1, none⟩, .add 0 none, .call ⟨2, none⟩,
      .add 1 none] (threadpoolCreate 1 1 [⟨0, none⟩] 0 true)
      (fun s => (⟨⟨2, none⟩, .waiting⟩ : AddCall) ∈ s.calls) = true := by
    decide +kernel
  obtain ⟨s, hrun, hs⟩ := exists_of_reaches hreached
  exact ⟨s, hrun, full_of_waiting hrun (of_decide_eq_true hs) rfl⟩

end Threadpool

end SafeTransmission
