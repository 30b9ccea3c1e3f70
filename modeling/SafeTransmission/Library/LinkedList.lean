import SafeTransmission.Library.Outcome

/-!
# Doubly linked lists in memory

A memory of nodes, each with a value and two pointers, and what it means that a
pointer is a list: every node points at its neighbours, and both ends are null
(`IsList`).  A node is put behind the last one by setting three pointers
(`IsList.append`).
-/

namespace SafeTransmission

open Outcome

/-- A node of a list.  A null pointer is `none`. -/
structure ListNode (α : Type) where
  value : α
  prev : Option ℕ
  next : Option ℕ
deriving DecidableEq, Repr

/-- The nodes that were allocated, by their addresses. -/
abbrev NodeHeap (α : Type) := List (ListNode α)

namespace NodeHeap

variable {α : Type}

/-- A node with both pointers null is allocated behind all others. -/
def alloc (h : NodeHeap α) (value : α) : ℕ × NodeHeap α :=
  (h.length, h ++ [⟨value, none, none⟩])

/-- `*p`. -/
def get (h : NodeHeap α) : Option ℕ → Outcome (ListNode α)
  | none => fault .nullDeref
  | some a =>
      match h[a]? with
      | some node => ok node
      | none => fault .useAfterFree

/-- An assignment through `p`. -/
def update (h : NodeHeap α) (p : Option ℕ) (f : ListNode α → ListNode α) : Outcome (NodeHeap α) :=
  match p with
  | none => fault .nullDeref
  | some a =>
      match h[a]? with
      | some node => ok (h.set a (f node))
      | none => fault .useAfterFree

/-- `p->prev = prev`. -/
def setPrev (h : NodeHeap α) (p prev : Option ℕ) : Outcome (NodeHeap α) :=
  h.update p ({ · with prev := prev })

/-- `p->next = next`. -/
def setNext (h : NodeHeap α) (p next : Option ℕ) : Outcome (NodeHeap α) :=
  h.update p ({ · with next := next })

/-- The nodes at the addresses `as` hold `vs`, and point at each other; in front of the first
is `prev`. -/
def Links (h : NodeHeap α) : Option ℕ → List ℕ → List α → Prop
  | _, [], [] => True
  | prev, a :: as, v :: vs => h[a]? = some ⟨v, prev, as.head?⟩ ∧ Links h (some a) as vs
  | _, _, _ => False

/-- From `first` to `last` there is a list of `vs`, with null pointers at both ends. -/
def IsList (h : NodeHeap α) (first last : Option ℕ) (vs : List α) : Prop :=
  ∃ as, as.Nodup ∧ first = as.head? ∧ last = as.getLast? ∧ Links h none as vs

variable {h h' : NodeHeap α} {first last : Option ℕ} {vs : List α}

theorem isList_nil : IsList h none none [] :=
  ⟨[], List.nodup_nil, rfl, rfl, trivial⟩

theorem Links.length_eq {prev : Option ℕ} {as : List ℕ} (hlinks : Links h prev as vs) :
    as.length = vs.length := by
  induction as generalizing prev vs with
  | nil =>
      cases vs with
      | nil => rfl
      | cons v vs => exact hlinks.elim
  | cons a as ih =>
      cases vs with
      | nil => exact hlinks.elim
      | cons v vs => rw [List.length_cons, List.length_cons, ih hlinks.2]

theorem Links.lt_length {prev : Option ℕ} {as : List ℕ} (hlinks : Links h prev as vs) :
    ∀ a ∈ as, a < h.length := by
  induction as generalizing prev vs with
  | nil => simp
  | cons a as ih =>
      cases vs with
      | nil => exact hlinks.elim
      | cons v vs =>
          refine List.forall_mem_cons.mpr ⟨?_, ih hlinks.2⟩
          exact (List.getElem?_eq_some_iff.mp hlinks.1).1

theorem Links.unique {prev prev' : Option ℕ} {as as' : List ℕ} {vs' : List α}
    (hlinks : Links h prev as vs) (hlinks' : Links h prev' as' vs') (hhead : as.head? = as'.head?) :
    vs = vs' := by
  induction as generalizing prev prev' vs as' vs' with
  | nil =>
      obtain rfl := List.head?_eq_none_iff.mp hhead.symm
      rw [List.length_eq_zero_iff.mp hlinks.length_eq.symm,
        List.length_eq_zero_iff.mp hlinks'.length_eq.symm]
  | cons a as ih =>
      match vs, as', vs', hlinks, hlinks' with
      | v :: vs, a' :: as', v' :: vs', ⟨hnode, hrest⟩, ⟨hnode', hrest'⟩ =>
          obtain rfl : a = a' := Option.some.inj hhead
          rw [hnode, Option.some.injEq, ListNode.mk.injEq] at hnode'
          rw [hnode'.1, ih hrest hrest' hnode'.2.2]

theorem IsList.unique {last' : Option ℕ} {vs' : List α} (hlist : IsList h first last vs)
    (hlist' : IsList h first last' vs') : vs = vs' := by
  obtain ⟨as, -, hfirst, -, hlinks⟩ := hlist
  obtain ⟨as', -, hfirst', -, hlinks'⟩ := hlist'
  exact hlinks.unique hlinks' (hfirst.symm.trans hfirst')

/-- The last node gets a successor, and the nodes in front of it stay. -/
theorem Links.append {prev : Option ℕ} {as : List ℕ} {b a : ℕ} {v : α}
    (hlinks : Links h prev (as ++ [b]) vs) (hfront : ∀ c ∈ as, h'[c]? = h[c]?)
    (hlast : ∀ node, h[b]? = some node → h'[b]? = some { node with next := some a })
    (hnew : h'[a]? = some ⟨v, some b, none⟩) :
    Links h' prev (as ++ [b] ++ [a]) (vs ++ [v]) := by
  induction as generalizing prev vs with
  | nil =>
      match vs, hlinks with
      | [u], ⟨hb, _⟩ => exact ⟨hlast _ hb, hnew, trivial⟩
      | u :: u' :: us, ⟨_, hrest⟩ => exact hrest.elim
  | cons c as ih =>
      cases vs with
      | nil => exact hlinks.elim
      | cons u us =>
          obtain ⟨hc, hrest⟩ := hlinks
          refine ⟨?_, ih hrest fun d hd => hfront d (List.mem_cons_of_mem _ hd)⟩
          rw [hfront c List.mem_cons_self, hc]
          simp [List.head?_append]

theorem isList_alloc (value : α) :
    IsList (h.alloc value).2 (some (h.alloc value).1) (some (h.alloc value).1) [value] := by
  refine ⟨[h.length], List.nodup_singleton _, rfl, rfl, ?_, trivial⟩
  rw [alloc, List.getElem?_append_right le_rfl, Nat.sub_self]
  rfl

/-- A new node is linked behind the last one: its `prev`, the `next` of the last one, and its own
`next`. -/
theorem IsList.append (hlist : IsList h first last vs) (hne : vs ≠ []) (value : α) :
    ∃ h₁ h₂, (h.alloc value).2.setPrev (some (h.alloc value).1) last = ok h₁ ∧
      h₁.setNext last (some (h.alloc value).1) = ok h₂ ∧
      (∃ node, h₂.get last = ok node ∧ node.next = some (h.alloc value).1) ∧
      h₂.setNext (some (h.alloc value).1) none = ok h₂ ∧ h₂.length = h.length + 1 ∧
      IsList h₂ first (some (h.alloc value).1) (vs ++ [value]) := by
  obtain ⟨as, hnodup, rfl, rfl, hlinks⟩ := hlist
  obtain ⟨front, b, rfl⟩ : ∃ front b, as = front ++ [b] := by
    rcases List.eq_nil_or_concat' as with rfl | hsplit
    · exact absurd (List.length_eq_zero_iff.mp hlinks.length_eq.symm) hne
    · exact hsplit
  have hb : b < h.length := hlinks.lt_length b (by simp)
  have hfront : ∀ c ∈ front, c < h.length ∧ c ≠ b := by
    intro c hc
    refine ⟨hlinks.lt_length c (by simp [hc]), ?_⟩
    rintro rfl
    exact (List.nodup_append.mp hnodup).2.2 c hc c (by simp) rfl
  obtain ⟨node, hnode⟩ : ∃ node, h[b]? = some node := ⟨_, List.getElem?_eq_getElem hb⟩
  have hlastPtr : (front ++ [b]).getLast? = some b := by simp
  rw [hlastPtr]
  -- the memory behind each assignment
  have hprev : (h.alloc value).2.setPrev (some (h.alloc value).1) (some b) =
      ok (h ++ [⟨value, some b, none⟩]) := by
    simp [setPrev, update, alloc]
  have hnext : NodeHeap.setNext (h ++ [⟨value, some b, none⟩]) (some b) (some (h.alloc value).1) =
      ok (h.set b { node with next := some h.length } ++ [⟨value, some b, none⟩]) := by
    simp [setNext, update, alloc, List.getElem?_append_left hb, hnode, List.set_append_left _ _ hb]
  set h₂ : NodeHeap α := h.set b { node with next := some h.length } ++ [⟨value, some b, none⟩] with hh₂
  have hnew : h₂[h.length]? = some ⟨value, some b, none⟩ := by
    simp [hh₂]
  have hat : h₂[b]? = some { node with next := some h.length } := by
    rw [hh₂, List.getElem?_append_left (by simpa using hb), List.getElem?_set_self hb]
  refine ⟨_, h₂, hprev, hnext, ⟨{ node with next := some h.length }, ?_, rfl⟩, ?_, by simp [hh₂], ?_⟩
  · simp only [get, hat]
  · obtain ⟨hlt, hget⟩ := List.getElem?_eq_some_iff.mp hnew
    simp only [setNext, update, alloc, hnew, ok.injEq]
    exact hget ▸ List.set_getElem_self hlt
  · refine ⟨front ++ [b] ++ [h.length], ?_, ?_, by simp [alloc], hlinks.append ?_ ?_ hnew⟩
    · rw [List.nodup_append]
      refine ⟨hnodup, List.nodup_singleton _, fun c hc d hd => ?_⟩
      have hlt := hlinks.lt_length c hc
      rw [List.mem_singleton.mp hd]
      omega
    · simp [List.head?_append]
    · intro c hc
      obtain ⟨hlt, hne⟩ := hfront c hc
      rw [hh₂, List.getElem?_append_left (by simpa using hlt), List.getElem?_set_ne hne.symm]
    · intro node' hnode'
      rw [hnode] at hnode'
      obtain rfl := Option.some.inj hnode'
      exact hat

end NodeHeap

end SafeTransmission
