import SafeTransmission.Pool.Queue

/-!
# Calls of one producer

If one thread makes all calls of `threadpool_add`, one after the other, its tasks are
added in the order of the calls, and at most the last one is not added yet (`InTurn`).

Before a shutdown no step of the pool is undefined (`act_ne_fault`).

## Strategy

* All calls but the last have returned, so a step of the pool can only concern the last
  (`eq_length_of_some`), and what it does to `added` is what it does to this call.
* `act_ne_fault` goes through the functions one by one: an index into the ring is always inside, and
  only `threadpool_destroy` and too few slots at the start lead out of an array.
-/

namespace SafeTransmission

open Outcome

namespace AddCall

theorem wake_of_returned {call : AddCall} (h : call.phase = .returned) :
    call.wake = call := by
  simp [AddCall.wake, h]

theorem wake_task (call : AddCall) : call.wake.task = call.task := by
  unfold AddCall.wake
  split <;> rfl

theorem wake_ne_returned {call : AddCall} (h : call.phase ≠ .returned) :
    call.wake.phase ≠ .returned := by
  unfold AddCall.wake
  split
  · simp
  · exact h

end AddCall

namespace Threadpool

variable {s s' : Threadpool} {e : PoolEvent} {calls : List AddCall} {added : List Task}
  {initial : List Task}

/-! ## One call after the other -/

/-- All calls have returned, and their tasks were added. -/
structure Settled (calls : List AddCall) (added : List Task) : Prop where
  returned : ∀ call ∈ calls, call.phase = .returned
  added : added = calls.map AddCall.task

/-- All calls before the last one have returned. -/
inductive InTurn : List AddCall → List Task → Prop where
  | settled (calls : List AddCall) (added : List Task) : Settled calls added → InTurn calls added
  | inCall (calls : List AddCall) (call : AddCall) (added : List Task) : Settled calls added →
      call.phase ≠ .returned → InTurn (calls ++ [call]) added

namespace Settled

theorem map_wake (h : Settled calls added) : calls.map AddCall.wake = calls := by
  rw [List.map_congr_left fun call hcall => AddCall.wake_of_returned (h.returned call hcall),
    List.map_id']

theorem push (h : Settled calls added) (task : Task) :
    Settled (calls ++ [⟨task, .returned⟩]) (added ++ [task]) where
  returned := forall_mem_concat h.returned rfl
  added := by
    rw [List.map_append, ← h.added]
    rfl

/-- Behind calls that have returned, only the next one can be at work. -/
theorem eq_length_of_some (h : Settled calls added) {call old : AddCall} {p : ℕ}
    (hp : (calls ++ [call])[p]? = some old) (hold : old.phase ≠ .returned) :
    p = calls.length ∧ old = call := by
  rcases getElem?_concat hp with hp | hp
  · exact absurd (h.returned old (List.mem_of_getElem? hp)) hold
  · exact hp

end Settled

theorem length_calls_of_acts (hact : s.Acts e s') (hcall : ∀ task, e ≠ .call task) :
    s'.calls.length = s.calls.length := by
  cases hact with
  | calls task => exact absurd rfl (hcall task)
  | dequeues => exact List.length_map _
  | moves => exact List.length_set
  | enqueues => exact List.length_set
  | grows target phase => rw [grow_eq Threadpool.calls fun _ _ => rfl]
  | _ => rfl

theorem task_of_acts {task : Task} (h : ∀ call ∈ s.calls, call.task = task) (hact : s.Acts e s')
    (hcall : ∀ task, e ≠ .call task) : ∀ call ∈ s'.calls, call.task = task := by
  cases hact with
  | calls task => exact absurd rfl (hcall task)
  | dequeues =>
      intro call hmem
      obtain ⟨old, hold, rfl⟩ := List.mem_map.mp hmem
      rw [old.wake_task]
      exact h old hold
  | moves e p call _ _ hin =>
      obtain ⟨phase, hp, -⟩ := hin
      have hnew : call.task = task := h ⟨call.task, phase⟩ (List.mem_of_getElem? hp)
      exact forall_mem_set h hnew p
  | enqueues e p new old workers _ _ _ hin =>
      obtain ⟨phase, hp, -⟩ := hin
      have hnew : new = task := h _ (List.mem_of_getElem? hp)
      exact forall_mem_set h hnew p
  | grows target phase =>
      rw [grow_eq Threadpool.calls fun _ _ => rfl]
      exact h
  | _ => exact h

/-- While no call is at work, steps of the pool do nothing about calls. -/
theorem Settled.acts (h : Settled s.calls s.added) (hact : s.Acts e s')
    (hcall : ∀ task, e ≠ .call task) : Settled s'.calls s'.added := by
  cases hact with
  | calls task => exact absurd rfl (hcall task)
  | dequeues =>
      change Settled (s.calls.map AddCall.wake) s.added
      rw [h.map_wake]
      exact h
  | moves e p call _ _ hin =>
      obtain ⟨phase, hp, hphase⟩ := hin
      exact absurd (h.returned _ (List.mem_of_getElem? hp)) hphase
  | enqueues e p new old workers _ _ _ hin =>
      obtain ⟨phase, hp, hphase⟩ := hin
      exact absurd (h.returned _ (List.mem_of_getElem? hp)) hphase
  | grows target phase =>
      rw [grow_eq Threadpool.calls fun _ _ => rfl, grow_eq Threadpool.added fun _ _ => rfl]
      exact h
  | _ => exact h

theorem inTurn_of_acts {call : AddCall} (h : Settled calls s.added)
    (hcalls : s.calls = calls ++ [call]) (hphase : call.phase ≠ .returned) (hact : s.Acts e s')
    (hcall : ∀ task, e ≠ .call task) : InTurn s'.calls s'.added := by
  have hkept : InTurn s.calls s.added := by
    rw [hcalls]
    exact .inCall calls call s.added h hphase
  cases hact with
  | calls task => exact absurd rfl (hcall task)
  | dequeues =>
      change InTurn (s.calls.map AddCall.wake) s.added
      rw [hcalls, List.map_append, h.map_wake]
      exact .inCall calls call.wake s.added h (AddCall.wake_ne_returned hphase)
  | moves e p new _ _ hin hnew =>
      obtain ⟨before, hp, hbefore⟩ := hin
      rw [hcalls] at hp
      obtain ⟨rfl, -⟩ := h.eq_length_of_some hp hbefore
      change InTurn (s.calls.set calls.length new) s.added
      rw [hcalls, List.set_append_right _ _ le_rfl, Nat.sub_self]
      exact .inCall calls new s.added h hnew
  | enqueues e p task old workers _ _ _ hin =>
      obtain ⟨before, hp, hbefore⟩ := hin
      rw [hcalls] at hp
      obtain ⟨rfl, -⟩ := h.eq_length_of_some hp hbefore
      change InTurn (s.calls.set calls.length ⟨task, .returned⟩) (s.added ++ [task])
      rw [hcalls, List.set_append_right _ _ le_rfl, Nat.sub_self]
      exact .settled _ _ (h.push task)
  | grows target phase =>
      rw [grow_eq Threadpool.calls fun _ _ => rfl, grow_eq Threadpool.added fun _ _ => rfl]
      exact hkept
  | _ => exact hkept

namespace InTurn

theorem acts (h : InTurn s.calls s.added) (hact : s.Acts e s') (hcall : ∀ task, e ≠ .call task) :
    InTurn s'.calls s'.added := by
  generalize hcalls : s.calls = all, hadded : s.added = tasks at h
  cases h with
  | settled _ _ hsettled =>
      subst hcalls hadded
      exact .settled _ _ (hsettled.acts hact hcall)
  | inCall calls call _ hsettled hphase =>
      subst hadded
      exact inTurn_of_acts hsettled hcalls hphase hact hcall

theorem settled_of_last (h : InTurn calls added) {p : ℕ} (hlength : calls.length = p + 1)
    (hlast : calls[p]?.map AddCall.phase = some .returned) : Settled calls added := by
  cases h with
  | settled _ _ hsettled => exact hsettled
  | inCall earlier call _ _ hphase =>
      rw [List.length_append, List.length_singleton] at hlength
      obtain rfl : earlier.length = p := by omega
      rw [List.getElem?_concat_length] at hlast
      exact absurd (Option.some.inj hlast) hphase

theorem mem_added (h : InTurn calls added) {task : Task} (hmem : task ∈ added) :
    ∃ call ∈ calls, call.task = task := by
  cases h with
  | settled _ _ hsettled =>
      rw [hsettled.added] at hmem
      exact List.mem_map.mp hmem
  | inCall earlier call _ hsettled =>
      rw [hsettled.added] at hmem
      obtain ⟨old, hold, htask⟩ := List.mem_map.mp hmem
      exact ⟨old, List.mem_append_left _ hold, htask⟩

theorem length_eq (h : InTurn calls added) {p : ℕ} (hlength : calls.length = p + 1) :
    calls.length =
      added.length + if calls[p]?.map AddCall.phase = some .returned then 0 else 1 := by
  cases h with
  | settled _ _ hsettled =>
      have hlt : p < calls.length := by omega
      have hlast : calls[p]?.map AddCall.phase = some .returned := by
        rw [List.getElem?_eq_getElem hlt, Option.map_some,
          hsettled.returned _ (List.getElem_mem hlt)]
      rw [if_pos hlast, hsettled.added, List.length_map, Nat.add_zero]
  | inCall earlier call _ hsettled hphase =>
      rw [List.length_append, List.length_singleton] at hlength
      obtain rfl : earlier.length = p := by omega
      have hlast : (earlier ++ [call])[earlier.length]?.map AddCall.phase ≠ some .returned := by
        rw [List.getElem?_concat_length]
        exact fun hreturned => hphase (Option.some.inj hreturned)
      rw [if_neg hlast, hsettled.added, List.length_map, List.length_append,
        List.length_singleton]

end InTurn

/-! ## No step is undefined -/

/-- The lock is taken, or the step does not happen. -/
theorem exists_of_takeLock_fault {holder : Holder} {next : Bool × Threadpool → Outcome Threadpool}
    {kind : Fault} (h : (s.takeLock holder >>= next) = fault kind) :
    ∃ shutdown, next (shutdown, { s with inside := none }) = fault kind := by
  cases hlock : s.takeLock holder with
  | ok x =>
      obtain ⟨shutdown, s₁⟩ := x
      obtain rfl : s₁ = { s with inside := none } := (takeLock_eq_ok hlock).2
      rw [hlock, ok_bind] at h
      exact ⟨shutdown, h⟩
  | err code =>
      rw [hlock] at h
      cases h
  | fault kind' =>
      unfold takeLock at hlock
      split at hlock
      · cases hlock
      · split at hlock <;> cases hlock

theorem testQueue_ne_fault (h : InOrder initial s) (shutdown : Bool) (w : ℕ) (kind : Fault) :
    s.testQueue shutdown w ≠ fault kind := by
  intro hfault
  unfold testQueue at hfault
  split at hfault
  · cases hfault
  · rename_i hnot
    split at hfault
    · cases hfault
    · rename_i hrunning
      have hrunning : shutdown = false := Bool.eq_false_of_not_eq_true hrunning
      -- the size says that there is a task at the front
      have hlt := h.lt_of_size_ne_zero fun hsize => hnot ⟨hsize, hrunning⟩
      rw [h.window.slot_front hlt, List.getElem?_eq_getElem hlt] at hfault
      cases hfault

theorem signal_ne_fault (s : Threadpool) (target : Option ℕ) (kind : Fault) :
    s.signal target ≠ fault kind := by
  intro hfault
  cases target with
  | none => cases (require_bind_eq_fault.mp hfault).2
  | some w => cases (require_bind_eq_fault.mp hfault).2

theorem addTask_ne_fault (h : InOrder initial s) (hpos : 0 < initial.length) (shutdown : Bool) (p : ℕ)
    (task : Task) (target : Option ℕ) (kind : Fault) :
    s.addTask shutdown p task target ≠ fault kind := by
  intro hfault
  have hlt : s.added.length < (initial ++ s.added).length := by
    rw [List.length_append]
    omega
  have hslot : s.queue.slots[s.queue.rear]? = some (initial ++ s.added)[s.added.length] := by
    rw [h.window.slot_rear hpos, List.getElem?_eq_getElem hlt]
  unfold addTask at hfault
  split at hfault
  · cases hfault
  · split at hfault
    · cases hfault
    · unfold enqueue at hfault
      rw [show (s.setCall p ⟨task, .returned⟩).queue = s.queue from rfl, hslot] at hfault
      exact signal_ne_fault _ _ _ hfault

theorem adjustThread_ne_fault (s : Threadpool) (target : Option ℕ) (kind : Fault) :
    s.adjustThread target ≠ fault kind := by
  intro hfault
  have hbody := (require_bind_eq_fault.mp hfault).2
  cases hphase : s.adjust with
  | signalling left =>
      rw [hphase] at hbody
      cases left with
      | zero => cases hbody
      | succ left => exact signal_ne_fault _ _ _ hbody
  | sleeping =>
      rw [hphase] at hbody
      cases (require_bind_eq_fault.mp hbody).2
  | growing queueSize liveThrNum busyThrNum =>
      rw [hphase] at hbody
      dsimp only at hbody
      split at hbody
      · cases (require_bind_eq_fault.mp hbody).2
      · cases hbody
  | shrinking liveThrNum busyThrNum =>
      rw [hphase] at hbody
      dsimp only at hbody
      split at hbody
      · cases (require_bind_eq_fault.mp hbody).2
      · cases hbody
  | _ =>
      rw [hphase] at hbody
      cases hbody

/-- Before a shutdown every step is defined, if there are slots for the first threads. -/
theorem act_ne_fault (h : Running initial s) (hpos : 0 < initial.length)
    (hslots : s.minThrNum ≤ s.threads.length) (he : e.byDestroy = false) (kind : Fault) :
    s.act e ≠ fault kind := by
  intro hfault
  have hunlocked : InOrder initial { s with inside := none } := ⟨h.order.window, h.order.dequeued⟩
  cases e with
  | create =>
      -- there is a slot for each of the first threads
      change s.create = fault kind at hfault
      unfold create at hfault
      split at hfault
      · cases hfault
      · rename_i i hi
        split at hfault
        · rename_i hmin
          rw [if_pos (by omega)] at hfault
          cases hfault
        · cases hfault
  | enter w =>
      obtain ⟨shutdown, hbody⟩ := exists_of_takeLock_fault (require_bind_eq_fault.mp hfault).2
      exact testQueue_ne_fault hunlocked shutdown w kind hbody
  | resume w =>
      obtain ⟨shutdown, hbody⟩ := exists_of_takeLock_fault (require_bind_eq_fault.mp hfault).2
      dsimp only at hbody
      split at hbody
      · split at hbody
        · cases hbody
        · have hsame : InOrder initial
              { s with inside := none, waitExitThrNum := s.waitExitThrNum - 1 } :=
            ⟨h.order.window, h.order.dequeued⟩
          exact testQueue_ne_fault hsame shutdown w kind hbody
      · exact testQueue_ne_fault hunlocked shutdown w kind hbody
  | startWorking w =>
      change s.startWorking w = fault kind at hfault
      unfold startWorking at hfault
      split at hfault <;> cases hfault
  | finish w =>
      change s.finish w = fault kind at hfault
      unfold finish at hfault
      split at hfault <;> cases hfault
  | endWorking w =>
      change s.endWorking w = fault kind at hfault
      unfold endWorking at hfault
      split at hfault <;> cases hfault
  | wakeUp w => cases (require_bind_eq_fault.mp hfault).2
  | exit w => cases (require_bind_eq_fault.mp hfault).2
  | call task => cases (require_bind_eq_fault.mp hfault).2
  | add p target =>
      change s.add p target = fault kind at hfault
      unfold add at hfault
      split at hfault
      · cases hfault
      · obtain ⟨shutdown, hbody⟩ := exists_of_takeLock_fault hfault
        exact addTask_ne_fault hunlocked hpos shutdown _ _ _ _ hbody
  | wakeCall p =>
      change s.wakeCall p = fault kind at hfault
      unfold wakeCall at hfault
      split at hfault <;> cases hfault
  | goOn p target =>
      -- no call has found the pool shut down
      change s.goOn p target = fault kind at hfault
      unfold goOn at hfault
      split at hfault
      · rename_i task hcall
        exact h.locked _ (List.mem_of_getElem? hcall) rfl
      · cases hfault
  | adjust target => exact adjustThread_ne_fault s target kind hfault
  | destroy | shutDownInside => cases he

theorem step_ne_fault (h : Running initial s) (hpos : 0 < initial.length)
    (hslots : s.minThrNum ≤ s.threads.length) (hthere : s.destroy ≠ .freed) (he : e.byDestroy = false)
    (kind : Fault) : s.step e ≠ fault kind := by
  intro hfault
  unfold step at hfault
  cases hact : s.act e with
  | ok s' =>
      rw [hact, ok_bind, if_neg fun hfreed => hthere hfreed.1] at hfault
      cases hfault
  | err code =>
      rw [hact] at hfault
      cases hfault
  | fault kind' => exact act_ne_fault h hpos hslots he kind' hact

theorem slots_of_acts (hact : s.Acts e s') (hslots : s.minThrNum ≤ s.threads.length) :
    s'.minThrNum ≤ s'.threads.length := by
  cases hact with
  | created i =>
      change s.minThrNum ≤ (s.threads.set i _).length
      rwa [List.length_set]
  | grows target phase =>
      refine grow_keeps (fun s => s.minThrNum ≤ s.threads.length) ?_ _ _ _ hslots
      intro s i hslots _ _
      change s.minThrNum ≤ (s.threads.set i _).length
      rwa [List.length_set]
  | _ => exact hslots

/-! ## Tasks that end -/

theorem finished_of_acts (hact : s.Acts e s') :
    s'.finished = s.finished ∨ ∃ w k task, e = .finish w ∧
      s.workers[w]? = some (.running k task) ∧ s'.finished = s.finished ++ [k] := by
  cases hact with
  | finishes w k task hw => exact Or.inr ⟨w, k, task, rfl, hw, rfl⟩
  | grows target phase => exact Or.inl (grow_eq Threadpool.finished (fun _ _ => rfl) _ _ _ _)
  | _ => exact Or.inl rfl

end Threadpool

end SafeTransmission
