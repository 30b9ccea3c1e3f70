import SafeTransmission.Library.Freeing

/-!
# `freeSequence`

`DER_ITCAST_FreeQueue` frees a node, the data that it points at, and everything behind it.
`SequenceASN1::freeSequence` of `clientop` and `serverop` has a loop of its own around it, and goes
on with the next node when all are freed.  So it frees every block once exactly if there is no next
node (`freesOnce_iff`).  In the first pair of programs there is no such loop.

A node is read and freed as a block, and its data is another one.

## Strategy

* Memory is a list of blocks, and what is freed is recorded; `free` and `read` are those of
  `Library.Freeing`.
* The queue frees the blocks of the nodes behind its argument (`derItcastFreeQueue_eq`), which are
  different ones if they are linked properly (`nodup_blocksAt_iff`).
* The loop around it then reads the second node, which is gone (`freeSequence_ne_ok`).
-/

namespace SafeTransmission

open Outcome Freeing

/-- The pointers of an `ITCAST_ANYBUF`, as far as they are read here. -/
structure QueueNode where
  pData : Option ℕ
  next : Option ℕ
deriving DecidableEq, Repr

/-- What is freed. -/
inductive QueueBlock where
  | node (address : ℕ)
  | data (address : ℕ)
deriving DecidableEq, Repr

/-- A null-terminated list of different nodes in memory. -/
structure Queue where
  memory : List QueueNode
  addresses : List ℕ
  nodup : addresses.Nodup
  chained : Chained QueueNode.next memory addresses

namespace Queue

/-- `*pAnyBuf`. -/
def nodeAt (memory : List QueueNode) (address : ℕ) (freed : List QueueBlock) : Outcome QueueNode :=
  read (.node address)
    (match memory[address]? with
      | some node => ok node
      | none => fault .readOutOfBounds) freed

/-- The blocks of a node in the order in which they are freed.  A null `pData` is passed over. -/
def blocksOf (address : ℕ) (node : QueueNode) : List QueueBlock :=
  match node.pData with
  | some data => [.data data, .node address]
  | none => [.node address]

/-- The loop of `DER_ITCAST_FreeQueue`, and the lines behind it for the last node. -/
def derItcastFreeQueueLoop (memory : List QueueNode) :
    ℕ → ℕ → List QueueBlock → Outcome (List QueueBlock)
  | 0, _, _ => fault .diverges
  | fuel + 1, pAnyBuf, freed => do
      let node ← nodeAt memory pAnyBuf freed
      match node.next with
      | some pTmp => do
          let freed ← freeAll (blocksOf pAnyBuf node) freed
          derItcastFreeQueueLoop memory fuel pTmp freed
      | none => freeAll (blocksOf pAnyBuf node) freed

/-- `DER_ITCAST_FreeQueue`.  Each turn frees another node. -/
def derItcastFreeQueue (memory : List QueueNode) (pAnyBuf : Option ℕ) (freed : List QueueBlock) :
    Outcome (List QueueBlock) :=
  match pAnyBuf with
  | none => ok freed
  | some address => derItcastFreeQueueLoop memory memory.length address freed

/-- The loop of `freeSequence`. -/
def freeSequenceLoop (memory : List QueueNode) :
    ℕ → Option ℕ → List QueueBlock → Outcome (List QueueBlock)
  | _, none, freed => ok freed
  | 0, some _, _ => fault .diverges
  | fuel + 1, some node, freed => do
      let mTemp ← nodeAt memory node freed
      let freed ← derItcastFreeQueue memory (some node) freed
      freeSequenceLoop memory fuel mTemp.next freed

/-- `SequenceASN1::freeSequence` of `clientop` and `serverop`. -/
def freeSequence (memory : List QueueNode) (node : Option ℕ) : Outcome (List QueueBlock) :=
  freeSequenceLoop memory memory.length node []

/-- The blocks of nodes, node after node. -/
def blocksAt (memory : List QueueNode) (addresses : List ℕ) : List QueueBlock :=
  addresses.flatMap fun a => (memory[a]?.map (blocksOf a)).getD []

/-- What the nodes point at as their data. -/
def datasAt (memory : List QueueNode) (addresses : List ℕ) : List ℕ :=
  addresses.filterMap fun a => memory[a]?.bind QueueNode.pData

/-- Every node and its data is freed once, and nothing else, and no node is read behind that. -/
def FreesOnce (q : Queue) (x : Outcome (List QueueBlock)) : Prop :=
  ∃ freed, x = ok freed ∧ freed.Nodup ∧ ∀ b, b ∈ freed ↔ b ∈ blocksAt q.memory q.addresses

section FreeQueue

variable {memory : List QueueNode} {a : ℕ} {as : List ℕ} {node : QueueNode}
  {freed freed' : List QueueBlock}

theorem nodeAt_eq (hnode : memory[a]? = some node) (hfresh : .node a ∉ freed) :
    nodeAt memory a freed = ok node := by
  rw [nodeAt, read_of_notMem hfresh, hnode]

theorem blocksAt_cons (hnode : memory[a]? = some node) :
    blocksAt memory (a :: as) = blocksOf a node ++ blocksAt memory as := by
  rw [blocksAt, List.flatMap_cons, hnode]
  rfl

theorem node_mem_blocksOf {c : ℕ} : .node c ∈ blocksOf a node ↔ c = a := by
  rw [blocksOf]
  split <;> simp

theorem data_mem_blocksOf {d : ℕ} : .data d ∈ blocksOf a node ↔ node.pData = some d := by
  rw [blocksOf]
  split
  · rename_i data hdata
    simp [hdata, eq_comm]
  · rename_i hdata
    simp [hdata]

theorem nodup_blocksOf : (blocksOf a node).Nodup := by
  rw [blocksOf]
  split <;> simp

theorem node_mem_blocksAt (hchained : Chained QueueNode.next memory as) {c : ℕ} :
    .node c ∈ blocksAt memory as ↔ c ∈ as := by
  induction as with
  | nil => simp [blocksAt]
  | cons a as ih =>
      obtain ⟨⟨node, hnode, -⟩, hrest⟩ := hchained
      rw [blocksAt_cons hnode, List.mem_append, node_mem_blocksOf, ih hrest, List.mem_cons]

theorem data_mem_blocksAt (hchained : Chained QueueNode.next memory as) {d : ℕ} :
    .data d ∈ blocksAt memory as ↔ d ∈ datasAt memory as := by
  induction as with
  | nil => simp [blocksAt, datasAt]
  | cons a as ih =>
      obtain ⟨⟨node, hnode, -⟩, hrest⟩ := hchained
      rw [blocksAt_cons hnode, List.mem_append, data_mem_blocksOf, ih hrest, datasAt, datasAt,
        List.filterMap_cons, hnode, Option.bind_some]
      cases node.pData with
      | none => simp
      | some data => simp [eq_comm]

/-- The queue frees the blocks of its nodes, as long as none of them was freed before. -/
theorem derItcastFreeQueueLoop_eq (hnodup : (a :: as).Nodup)
    (hchained : Chained QueueNode.next memory (a :: as))
    (hfresh : ∀ c ∈ a :: as, .node c ∉ freed) {fuel : ℕ} (hfuel : (a :: as).length ≤ fuel) :
    derItcastFreeQueueLoop memory fuel a freed = freeAll (blocksAt memory (a :: as)) freed := by
  induction as generalizing a freed fuel with
  | nil =>
      obtain ⟨fuel, rfl⟩ := Nat.exists_eq_succ_of_ne_zero (Nat.ne_of_gt hfuel)
      obtain ⟨⟨node, hnode, hnext⟩, -⟩ := hchained
      have hlast : node.next = none := hnext
      have hnone : blocksAt memory [] = [] := rfl
      rw [derItcastFreeQueueLoop, nodeAt_eq hnode (hfresh a List.mem_cons_self), ok_bind, hlast,
        blocksAt_cons hnode, hnone, List.append_nil]
  | cons b as ih =>
      obtain ⟨fuel, rfl⟩ := Nat.exists_eq_add_of_le' (Nat.one_le_of_lt hfuel)
      obtain ⟨⟨node, hnode, hnext⟩, hrest⟩ := hchained
      have hmore : node.next = some b := hnext
      obtain ⟨hnotMem, hnodup⟩ := List.nodup_cons.mp hnodup
      rw [derItcastFreeQueueLoop, nodeAt_eq hnode (hfresh a List.mem_cons_self), ok_bind, hmore,
        blocksAt_cons hnode, freeAll_append]
      dsimp only
      cases hblocks : freeAll (blocksOf a node) freed with
      | err code => rfl
      | fault kind => rfl
      | ok freed' =>
          obtain ⟨-, -, rfl⟩ := freeAll_eq_ok.mp hblocks
          rw [ok_bind, ok_bind]
          refine ih hnodup hrest (fun c hc => ?_) (Nat.le_of_succ_le_succ hfuel)
          rw [List.mem_append, node_mem_blocksOf, not_or]
          exact ⟨hfresh c (List.mem_cons_of_mem _ hc), fun heq => hnotMem (heq ▸ hc)⟩

theorem nodup_blocksAt_iff (hnodup : as.Nodup) (hchained : Chained QueueNode.next memory as) :
    (blocksAt memory as).Nodup ↔ (datasAt memory as).Nodup := by
  induction as with
  | nil => exact iff_of_true List.nodup_nil List.nodup_nil
  | cons a as ih =>
      obtain ⟨⟨node, hnode, -⟩, hrest⟩ := hchained
      obtain ⟨hnotMem, hnodup⟩ := List.nodup_cons.mp hnodup
      have hdatas : datasAt memory (a :: as) = node.pData.toList ++ datasAt memory as := by
        rw [datasAt, List.filterMap_cons, hnode, Option.bind_some]
        cases node.pData <;> rfl
      have hapart : List.Disjoint (blocksOf a node) (blocksAt memory as) ↔
          List.Disjoint node.pData.toList (datasAt memory as) := by
        constructor
        · intro h d hd hmem
          exact h (data_mem_blocksOf.mpr (Option.mem_toList.mp hd))
            ((data_mem_blocksAt hrest).mpr hmem)
        · intro h b hb hmem
          cases b with
          | node c =>
              obtain rfl := node_mem_blocksOf.mp hb
              exact hnotMem ((node_mem_blocksAt hrest).mp hmem)
          | data d =>
              exact h (Option.mem_toList.mpr (data_mem_blocksOf.mp hb))
                ((data_mem_blocksAt hrest).mp hmem)
      have hsingle : node.pData.toList.Nodup := by
        cases node.pData <;> simp
      rw [blocksAt_cons hnode, hdatas, List.nodup_append', List.nodup_append', ih hnodup hrest,
        hapart]
      exact and_congr_left' (iff_of_true nodup_blocksOf hsingle)

/-- On a queue with a first node, `DER_ITCAST_FreeQueue` frees its blocks. -/
theorem derItcastFreeQueue_eq (hnodup : as.Nodup) (hchained : Chained QueueNode.next memory as) :
    derItcastFreeQueue memory as.head? [] = freeAll (blocksAt memory as) [] := by
  cases as with
  | nil => rfl
  | cons a as =>
      exact derItcastFreeQueueLoop_eq hnodup hchained (fun c _ => List.not_mem_nil)
        (hchained.length_le hnodup)

theorem freeSequenceLoop_none (memory : List QueueNode) (fuel : ℕ) (freed : List QueueBlock) :
    freeSequenceLoop memory fuel none freed = ok freed := by
  cases fuel <;> rfl

theorem nodup_datasAt_singleton (memory : List QueueNode) (a : ℕ) : (datasAt memory [a]).Nodup := by
  rw [datasAt, List.filterMap_cons]
  cases memory[a]?.bind QueueNode.pData <;> simp

theorem freeSequence_singleton (hchained : Chained QueueNode.next memory [a]) :
    freeSequence memory (some a) = freeAll (blocksAt memory [a]) [] := by
  obtain ⟨⟨node, hnode, hnext⟩, -⟩ := id hchained
  have hlast : node.next = none := hnext
  have hfuel := hchained.length_le (List.nodup_singleton a)
  obtain ⟨fuel, hlen⟩ := Nat.exists_eq_add_of_le' hfuel
  have hqueue : derItcastFreeQueue memory (some a) [] = freeAll (blocksAt memory [a]) [] :=
    derItcastFreeQueue_eq (List.nodup_singleton a) hchained
  rw [freeSequence, hlen, List.length_singleton, freeSequenceLoop,
    nodeAt_eq hnode List.not_mem_nil, ok_bind, hqueue, hlast]
  cases freeAll (blocksAt memory [a]) [] with
  | err code => rfl
  | fault kind => rfl
  | ok freed => exact freeSequenceLoop_none memory fuel freed

/-- The second node is read when it was freed. -/
theorem freeSequence_ne_ok {b : ℕ} (hnodup : (a :: b :: as).Nodup)
    (hchained : Chained QueueNode.next memory (a :: b :: as)) (freed : List QueueBlock) :
    freeSequence memory (some a) ≠ ok freed := by
  obtain ⟨⟨node, hnode, hnext⟩, -⟩ := id hchained
  have hmore : node.next = some b := hnext
  have hfuel := hchained.length_le hnodup
  rw [List.length_cons, List.length_cons] at hfuel
  obtain ⟨fuel, hlen⟩ := Nat.exists_eq_add_of_le' (show 2 ≤ memory.length by omega)
  have hqueue : derItcastFreeQueue memory (some a) [] =
      freeAll (blocksAt memory (a :: b :: as)) [] := derItcastFreeQueue_eq hnodup hchained
  intro h
  rw [freeSequence, hlen, freeSequenceLoop, nodeAt_eq hnode List.not_mem_nil, ok_bind, hqueue,
    hmore] at h
  obtain ⟨freed', hfree, h⟩ := bind_eq_ok.mp h
  obtain ⟨-, -, rfl⟩ := freeAll_eq_ok.mp hfree
  have hmem : .node b ∈ [] ++ blocksAt memory (a :: b :: as) := by
    rw [List.nil_append, node_mem_blocksAt hchained]
    simp
  rw [freeSequenceLoop, nodeAt, read_of_mem hmem] at h
  cases h

variable {q : Queue}

/-- A queue is freed as it should be if all its blocks are freed, and are different ones. -/
theorem freesOnce_freeAll_iff : FreesOnce q (freeAll (blocksAt q.memory q.addresses) []) ↔
    (datasAt q.memory q.addresses).Nodup := by
  rw [← nodup_blocksAt_iff q.nodup q.chained]
  constructor
  · rintro ⟨freed, hfree, -, -⟩
    exact (freeAll_eq_ok.mp hfree).1
  · intro hblocks
    have hfree := freeAll_eq_ok.mpr ⟨hblocks, fun _ _ => List.not_mem_nil, rfl⟩
    exact ⟨_, hfree, hblocks, fun _ => Iff.rfl⟩

end FreeQueue

/-- `freeSequence` frees every block once exactly if there is at most one node.
`DER_ITCAST_FreeQueue` alone does, exactly if no two nodes point at the same data. -/
theorem freesOnce_iff (q : Queue) :
    (FreesOnce q (freeSequence q.memory q.addresses.head?) ↔ q.addresses.length ≤ 1) ∧
      (FreesOnce q (derItcastFreeQueue q.memory q.addresses.head? []) ↔
        (datasAt q.memory q.addresses).Nodup) := by
  obtain ⟨memory, addresses, hnodup, hchained⟩ := q
  refine ⟨?_, ?_⟩
  · match addresses, hnodup, hchained with
    | [], hnodup, hchained =>
        exact iff_of_true ⟨[], freeSequenceLoop_none _ _ _, List.nodup_nil, fun b => Iff.rfl⟩
          (Nat.zero_le 1)
    | [a], hnodup, hchained =>
        refine iff_of_true ?_ le_rfl
        rw [List.head?_cons, freeSequence_singleton hchained]
        exact (@freesOnce_freeAll_iff ⟨memory, [a], hnodup, hchained⟩).mpr
          (nodup_datasAt_singleton memory a)
    | a :: b :: as, hnodup, hchained =>
        refine iff_of_false ?_ (by simp)
        rintro ⟨freed, hfree, -⟩
        exact freeSequence_ne_ok hnodup hchained freed hfree
  · dsimp only
    rw [derItcastFreeQueue_eq hnodup hchained]
    exact @freesOnce_freeAll_iff ⟨memory, addresses, hnodup, hchained⟩

/-- Two nodes, each with its data. -/
def twoNodes : Queue where
  memory := [⟨some 0, some 1⟩, ⟨some 1, none⟩]
  addresses := [0, 1]
  nodup := by decide
  chained := ⟨⟨_, rfl, rfl⟩, ⟨_, rfl, rfl⟩, trivial⟩

/-- The second one is freed with the first, and read again. -/
theorem not_freesOnce_twoNodes : ¬FreesOnce twoNodes (freeSequence twoNodes.memory (some 0)) := by
  rintro ⟨freed, hfree, -⟩
  have hfault : freeSequence twoNodes.memory (some 0) = fault .useAfterFree := by decide
  cases hfault.symm.trans hfree

end Queue

end SafeTransmission
