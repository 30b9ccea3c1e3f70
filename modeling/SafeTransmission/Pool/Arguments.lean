import SafeTransmission.Pool.Queue

/-!
# The arguments of the tasks

A slot of the ring keeps its argument when the task is dequeued.  When the slot is
used again, `threadpool_add` frees that argument.  Nothing tells it whether the task
has finished, whether other tasks have the same argument, or whether the slot was used
before.

The `k`-th call therefore frees the `k`-th entry of the list that begins with what was
in the memory and goes on with the arguments of the tasks (`Arguments.frees`).  So it is
known for which calls this goes well (`owned_iff`).

## Strategy

* `Arguments` says that the ring holds the last part of the history, and that the frees are what was
  overwritten.  Only a step that enqueues touches either (`frees_of_acts`).
* So a step that enqueues can be judged from the history alone: `owned_of_reusable` for one
  direction and `reusable_of_owned` for the other.
-/

namespace SafeTransmission.Threadpool

open Outcome

variable {s s' : Threadpool} {e : PoolEvent} {initial : List Task}

/-- Arguments are freed once, and when nobody needs them. -/
structure Owned (s : Threadpool) : Prop where
  /-- A call stored the argument. -/
  stored : ∀ a ∈ s.frees, ∃ task ∈ s.added, task.arg = some a
  /-- All tasks with the argument have finished, and no other task has it. -/
  finished : ∀ a ∈ s.frees, ∀ k task, s.added[k]? = some task → task.arg = some a → k ∈ s.finished
  once : s.frees.Nodup

/-- What was in the slots at the beginning, and all that was put in. -/
def history (initial : List Task) (s : Threadpool) : List Task :=
  initial ++ s.added

/-- The slot can be used for the task: what is freed was stored by a call, is not needed
any more and was not freed before, and what the task needs is not freed by this call and
was not freed before. -/
structure Reusable (initial : List Task) (s : Threadpool) (task : Task) : Prop where
  stored : ∀ old a, (history initial s)[s.added.length]? = some old → old.arg = some a →
    ∃ task ∈ s.added, task.arg = some a
  finished : ∀ old a, (history initial s)[s.added.length]? = some old → old.arg = some a →
    ∀ k task, s.added[k]? = some task → task.arg = some a → k ∈ s.finished
  once : ∀ old a, (history initial s)[s.added.length]? = some old → old.arg = some a →
    ∀ i < s.added.length, ∀ task, (history initial s)[i]? = some task → task.arg ≠ some a
  fresh : ∀ a, task.arg = some a → ∀ i ≤ s.added.length, ∀ old,
    (history initial s)[i]? = some old → old.arg ≠ some a

/-- If the step enqueues a task, its slot can be used for it. -/
def Reuses (initial : List Task) (s : Threadpool) (e : PoolEvent) : Prop :=
  ∀ task s', s.Enqueues task e → s.step e = ok s' → s.Reusable initial task

/-! ## What is freed -/

structure Arguments (initial : List Task) (s : Threadpool) : Prop where
  running : Running initial s
  shutdown : s.shutdown = false
  frees : s.frees = ((history initial s).take s.added.length).filterMap Task.arg
  finished_lt : ∀ k ∈ s.finished, k < s.added.length

theorem arguments_create (minThrNum maxThrNum waitExitThrNum : ℤ) (initial : List Task) (findsTerminated : Bool) :
    Arguments initial (threadpoolCreate minThrNum maxThrNum initial waitExitThrNum findsTerminated) where
  running := running_create _ _ _ _ _
  shutdown := rfl
  frees := rfl
  finished_lt := by simp [threadpoolCreate]

/-- An argument is freed if it is in the part of the history that was overwritten. -/
theorem Arguments.mem_frees (h : Arguments initial s) {a : ℕ} :
    a ∈ s.frees ↔ ∃ i < s.added.length, ∃ task, (history initial s)[i]? = some task ∧
      task.arg = some a := by
  rw [h.frees, List.mem_filterMap]
  constructor
  · rintro ⟨task, hmem, harg⟩
    obtain ⟨i, hi⟩ := List.getElem?_of_mem hmem
    rw [List.getElem?_take] at hi
    split at hi
    · rename_i hlt
      exact ⟨i, hlt, task, hi, harg⟩
    · cases hi
  · rintro ⟨i, hlt, task, hi, harg⟩
    refine ⟨task, List.mem_of_getElem? (i := i) ?_, harg⟩
    rw [List.getElem?_take, if_pos hlt]
    exact hi

theorem Arguments.slot (h : Arguments initial s) {task old : Task} (henqueues : s.Enqueues task e)
    (hslot : s.queue.slots[s.queue.rear]? = some old) :
    (history initial s)[s.added.length]? = some old := by
  have hroom : s.added.length < s.dequeued.length + initial.length := by
    cases e with
    | add p target => exact h.running.order.lt_of_size_ne_capacity henqueues.2.1
    | goOn p target => exact absurd rfl (h.running.locked _ (List.mem_of_getElem? henqueues))
    | _ => exact henqueues.elim
  have hpopped := h.running.order.window.popped_le
  rw [← hslot, h.running.order.window.slot_rear (by omega)]
  rfl

theorem take_history (task : Task) {old : Task}
    (hold : (history initial s)[s.added.length]? = some old) :
    (initial ++ (s.added ++ [task])).take (s.added ++ [task]).length =
      (history initial s).take s.added.length ++ [old] := by
  have hlt : s.added.length < (history initial s).length := (List.getElem?_eq_some_iff.mp hold).1
  calc (initial ++ (s.added ++ [task])).take (s.added ++ [task]).length
    _ = (history initial s ++ [task]).take (s.added.length + 1) := by
        rw [history, List.append_assoc, List.length_append, List.length_singleton]
    _ = (history initial s).take (s.added.length + 1) := List.take_append_of_le_length hlt
    _ = (history initial s).take s.added.length ++ [old] := by
        rw [List.take_add_one, hold, Option.toList_some]

theorem Arguments.acts (h : Arguments initial s) (hact : s.Acts e s') (he : e.byDestroy = false) :
    Arguments initial s' where
  running := h.running.acts hact ((shutdown_eq_of_acts hact he).trans h.shutdown)
  shutdown := (shutdown_eq_of_acts hact he).trans h.shutdown
  frees := by
    cases hact with
    | enqueues e p task old workers henqueues hslot =>
        change s.frees ++ old.arg.toList =
          ((initial ++ (s.added ++ [task])).take (s.added ++ [task]).length).filterMap Task.arg
        rw [take_history task (h.slot henqueues hslot), List.filterMap_append, ← h.frees]
        cases harg : old.arg <;> simp [harg]
    | grows target phase =>
        rw [history, grow_eq Threadpool.frees fun _ _ => rfl, grow_eq Threadpool.added fun _ _ => rfl]
        exact h.frees
    | _ => exact h.frees
  finished_lt := by
    cases hact with
    | finishes w k task hw =>
        apply forall_mem_concat h.finished_lt
        have hdequeued := h.running.handed.task _ (List.mem_of_getElem? hw) k task rfl
        have hlt := (List.getElem?_eq_some_iff.mp hdequeued).1
        exact hlt.trans_le h.running.order.window.popped_le
    | enqueues e p task =>
        intro k hk
        change k < (s.added ++ [task]).length
        rw [List.length_append]
        exact Nat.lt_add_right 1 (h.finished_lt k hk)
    | grows target phase =>
        rw [grow_eq Threadpool.finished fun _ _ => rfl, grow_eq Threadpool.added fun _ _ => rfl]
        exact h.finished_lt
    | _ => exact h.finished_lt

/-- Only a step that enqueues a task frees something, and that is what it finds in the slot. -/
theorem frees_of_acts (hact : s.Acts e s') : s'.frees = s.frees ∨
    ∃ task old, s.Enqueues task e ∧ s.queue.slots[s.queue.rear]? = some old ∧
      s'.frees = s.frees ++ old.arg.toList := by
  cases hact with
  | enqueues e p task old workers henqueues hslot => exact Or.inr ⟨task, old, henqueues, hslot, rfl⟩
  | grows target phase => exact Or.inl (grow_eq Threadpool.frees (fun _ _ => rfl) _ _ _ _)
  | _ => exact Or.inl rfl

/-! ## When it goes well -/

/-- A step that enqueues nothing frees nothing, and no task gets back to work. -/
theorem owned_of_acts (howned : s.Owned) (hact : s.Acts e s')
    (hnot : ∀ task, ¬s.Enqueues task e) : s'.Owned := by
  cases hact with
  | enqueues e p task old workers henqueues => exact absurd henqueues (hnot task)
  | finishes w k task hw =>
      refine ⟨howned.stored, ?_, howned.once⟩
      intro a ha j other hj harg
      exact List.mem_append_left _ (howned.finished a ha j other hj harg)
  | grows target phase =>
      refine ⟨?_, ?_, ?_⟩
      · rw [grow_eq Threadpool.frees fun _ _ => rfl, grow_eq Threadpool.added fun _ _ => rfl]
        exact howned.stored
      · rw [grow_eq Threadpool.frees fun _ _ => rfl, grow_eq Threadpool.added fun _ _ => rfl,
          grow_eq Threadpool.finished fun _ _ => rfl]
        exact howned.finished
      · rw [grow_eq Threadpool.frees fun _ _ => rfl]
        exact howned.once
  | _ => exact ⟨howned.stored, howned.finished, howned.once⟩

theorem owned_of_reusable (h : Arguments initial s) (howned : s.Owned) {task old : Task}
    (hold : (history initial s)[s.added.length]? = some old) (hreusable : s.Reusable initial task)
    (hadded : s'.added = s.added ++ [task]) (hfrees : s'.frees = s.frees ++ old.arg.toList)
    (hfinished : s'.finished = s.finished) : s'.Owned := by
  have hmem : ∀ a ∈ s'.frees, a ∈ s.frees ∨ old.arg = some a := by
    intro a ha
    rw [hfrees, List.mem_append, Option.mem_toList] at ha
    exact ha
  have hstored : ∀ a ∈ s'.frees, ∃ task ∈ s.added, task.arg = some a := by
    intro a ha
    rcases hmem a ha with ha | ha
    · exact howned.stored a ha
    · exact hreusable.stored old a hold ha
  refine ⟨?_, ?_, ?_⟩
  · intro a ha
    obtain ⟨other, hother, harg⟩ := hstored a ha
    exact ⟨other, hadded ▸ List.mem_append_left _ hother, harg⟩
  · intro a ha k other hk harg
    rw [hfinished]
    rw [hadded] at hk
    rcases getElem?_concat hk with hk | ⟨rfl, rfl⟩
    · rcases hmem a ha with ha | ha
      · exact howned.finished a ha k other hk harg
      · exact hreusable.finished old a hold ha k other hk harg
    · -- the argument of the new task is not freed
      rcases hmem a ha with ha | ha
      · obtain ⟨i, hlt, before, hi, hbefore⟩ := h.mem_frees.mp ha
        exact absurd hbefore (hreusable.fresh a harg i hlt.le before hi)
      · exact absurd ha (hreusable.fresh a harg _ le_rfl old hold)
  · rw [hfrees, List.nodup_append]
    refine ⟨howned.once, by cases old.arg <;> simp, ?_⟩
    rintro a ha b hb rfl
    obtain ⟨i, hlt, before, hi, hbefore⟩ := h.mem_frees.mp ha
    exact hreusable.once old a hold (Option.mem_toList.mp hb) i hlt before hi hbefore

theorem reusable_of_owned (h : Arguments initial s) {task old : Task}
    (hold : (history initial s)[s.added.length]? = some old)
    (hadded : s'.added = s.added ++ [task]) (hfrees : s'.frees = s.frees ++ old.arg.toList)
    (hfinished : s'.finished = s.finished) (howned : s'.Owned) : s.Reusable initial task := by
  -- the task that is added has not finished, so its argument is not freed
  have hnew : ∀ a ∈ s'.frees, task.arg ≠ some a := by
    intro a ha harg
    have hlast : s'.added[s.added.length]? = some task := by
      rw [hadded]
      exact List.getElem?_concat_length
    have hmem := howned.finished a ha s.added.length task hlast harg
    rw [hfinished] at hmem
    exact (h.finished_lt _ hmem).false
  have hfreed : ∀ other a, (history initial s)[s.added.length]? = some other → other.arg = some a →
      a ∈ s'.frees := by
    intro other a hother harg
    cases hold.symm.trans hother
    rw [hfrees, harg]
    exact List.mem_append_right _ (Option.mem_toList.mpr rfl)
  refine ⟨?_, ?_, ?_, ?_⟩
  · intro other a hother harg
    obtain ⟨user, huser, huserArg⟩ := howned.stored a (hfreed other a hother harg)
    rw [hadded] at huser
    rcases List.mem_append.mp huser with huser | huser
    · exact ⟨user, huser, huserArg⟩
    · rw [List.mem_singleton] at huser
      exact absurd (huser ▸ huserArg) (hnew a (hfreed other a hother harg))
  · intro other a hother harg k user hk huser
    have hk' : s'.added[k]? = some user := by
      rw [hadded]
      exact getElem?_append_of_some hk _
    have hmem := howned.finished a (hfreed other a hother harg) k user hk' huser
    rwa [hfinished] at hmem
  · intro other a hother harg i hlt before hi hbefore
    have honce := howned.once
    cases hold.symm.trans hother
    rw [hfrees, harg, List.nodup_append] at honce
    have hmem : a ∈ s.frees := h.mem_frees.mpr ⟨i, hlt, before, hi, hbefore⟩
    exact honce.2.2 a hmem a (Option.mem_toList.mpr rfl) rfl
  · intro a harg i hle before hi hbefore
    rcases hle.lt_or_eq with hlt | rfl
    · have hmem : a ∈ s.frees := h.mem_frees.mpr ⟨i, hlt, before, hi, hbefore⟩
      refine hnew a ?_ harg
      rw [hfrees]
      exact List.mem_append_left _ hmem
    · exact hnew a (hfreed before a hi hbefore) harg

/-! ## Runs -/

/-- The step leaves no argument freed that somebody needs. -/
def KeepsOwned (s : Threadpool) (e : PoolEvent) : Prop :=
  ∀ s', s.step e = ok s' → s'.Owned

theorem Arguments.keepsOwned_iff (h : Arguments initial s) (howned : s.Owned) :
    s.KeepsOwned e ↔ s.Reuses initial e := by
  constructor
  · intro hkeeps task s' henqueues hstep
    obtain ⟨p, old, workers, hslot, -, hs'⟩ := eq_of_enqueues henqueues hstep
    have hold := h.slot henqueues hslot
    refine reusable_of_owned h hold ?_ ?_ ?_ (hkeeps s' hstep)
    all_goals rw [hs']
  · intro hreuses s' hstep
    by_cases henqueues : ∃ task, s.Enqueues task e
    · obtain ⟨task, henqueues⟩ := henqueues
      have hreusable := hreuses task s' henqueues hstep
      obtain ⟨p, old, workers, hslot, -, rfl⟩ := eq_of_enqueues henqueues hstep
      exact owned_of_reusable h howned (h.slot henqueues hslot) hreusable rfl rfl rfl
    · exact owned_of_acts howned (acts_of_step hstep).1 fun task hnot => henqueues ⟨task, hnot⟩

/-- In every run of producers, workers and `adjust_thread`, arguments are freed only when
nobody needs them, and once, exactly if every call finds a slot that it can use. -/
theorem owned_iff (minThrNum maxThrNum waitExitThrNum : ℤ) (initial : List Task)
    (findsTerminated : Bool) {es : List PoolEvent} (hes : ∀ e ∈ es, e.byDestroy = false) :
    EachStep step KeepsOwned es
        (threadpoolCreate minThrNum maxThrNum initial waitExitThrNum findsTerminated) ↔
      EachStep step (Reuses initial) es
        (threadpoolCreate minThrNum maxThrNum initial waitExitThrNum findsTerminated) := by
  have hiff : ∀ s e, Arguments initial s ∧ s.Owned → e.byDestroy = false →
      (s.KeepsOwned e ↔ s.Reuses initial e) := fun s e h _ => h.1.keepsOwned_iff h.2
  have hkeep : ∀ s e s', Arguments initial s ∧ s.Owned → e.byDestroy = false → s.Reuses initial e →
      s.step e = ok s' → Arguments initial s' ∧ s'.Owned := by
    intro s e s' h he hreuses hstep
    exact ⟨h.1.acts (acts_of_step hstep).1 he, (h.1.keepsOwned_iff h.2).mpr hreuses s' hstep⟩
  have hinit : (threadpoolCreate minThrNum maxThrNum initial waitExitThrNum
      findsTerminated).Owned := by
    refine ⟨?_, ?_, ?_⟩ <;> simp [threadpoolCreate]
  exact eachStep_iff (fun s => Arguments initial s ∧ s.Owned) hiff hkeep hes
    ⟨arguments_create _ _ _ _ _, hinit⟩

/-- The slot of a task is used again behind the end of the task. -/
theorem owned_iff_inTurn :
    EachStep step KeepsOwned [.create, .create, .call ⟨1, some 5⟩, .add 0 none, .enter 0,
        .startWorking 0, .finish 0, .call ⟨2, some 6⟩, .add 1 none]
        (threadpoolCreate 1 1 [⟨0, none⟩] 0 true) ↔
      EachStep step (Reuses [⟨0, none⟩]) [.create, .create, .call ⟨1, some 5⟩, .add 0 none, .enter 0,
        .startWorking 0, .finish 0, .call ⟨2, some 6⟩, .add 1 none]
        (threadpoolCreate 1 1 [⟨0, none⟩] 0 true) :=
  owned_iff 1 1 0 [⟨0, none⟩] true (by decide)

/-- The argument of a task is freed while the worker is on its way to run it. -/
theorem not_keepsOwned_running :
    ¬EachStep step KeepsOwned [.create, .create, .call ⟨1, some 5⟩, .add 0 none, .enter 0,
        .startWorking 0, .call ⟨2, some 6⟩, .add 1 none] (threadpoolCreate 1 1 [⟨0, none⟩] 0 true) := by
  intro hkeeps
  have hlast := (((((((hkeeps.2 _ rfl).2 _ rfl).2 _ rfl).2 _ rfl).2 _ rfl).2 _ rfl).2 _ rfl).1
  have hfinished := (hlast _ rfl).finished 5 (by decide +kernel) 0 ⟨1, some 5⟩ (by decide +kernel) rfl
  exact absurd hfinished (by decide +kernel)

end SafeTransmission.Threadpool
