import SafeTransmission.Library.CObject
import SafeTransmission.Library.Runs
import SafeTransmission.Library.SlotTable

/-!
# `SecKeyShm`: the table of keys in shared memory

The segment is an array of `NodeSHMInfo`.  `shmWrite` looks for a node with the
ids of the record, by `strcmp`, and then for an empty node, by `memcmp` with an
all-zero one; `shmRead` looks for a node with the ids it is given.

For records with terminated ids that are not both empty the two searches are those
of a slot table, and the array is a finite map from pairs of ids to records.

## Strategy

* `shmWrite_eq` and `shmRead_eq` turn the loops over the array into searches of `Library.SlotTable`.
* `Holding` relates the array to the history of what was written (`Records`).  A successful write
  keeps it (`Holding.put`), a write that fails changes nothing, and a read gives the latest record.
* `secKeyShm_actsAsMap` is the run.
-/

namespace SafeTransmission

open Outcome

/-- `NodeSHMInfo`. -/
abbrev NodeSHMInfo := CObject 160

namespace NodeSHMInfo

def status : Member := ⟨.int, 0, 4⟩

def seckeyID : Member := ⟨.int, 4, 4⟩

def clientID : Member := ⟨.chars, 8, 12⟩

def serverID : Member := ⟨.chars, 20, 12⟩

def seckey : Member := ⟨.chars, 32, 128⟩

/-- The two ids of a node as strings. -/
def ids (info : NodeSHMInfo) : Bytes × Bytes :=
  (info.str clientID.off, info.str serverID.off)

/-- Both ids end inside their arrays. -/
structure IdsTerminated (info : NodeSHMInfo) : Prop where
  clientID : 0 ∈ info.chars clientID.off clientID.cap
  serverID : 0 ∈ info.chars serverID.off serverID.cap

/-- A node without content. -/
def empty : NodeSHMInfo := .zero 160

end NodeSHMInfo

namespace SecKeyShm

open NodeSHMInfo

/-! ## The functions -/

/-- The test of both searches: `strcmp` of the client id, and then of the server id. -/
def sameIds (clientID serverID : Bytes) (pNode : NodeSHMInfo) : Outcome Bool :=
  pNode.bothEqual NodeSHMInfo.clientID NodeSHMInfo.serverID clientID serverID

/-- `shmWrite` of an object whose `m_maxNode` is `maxNode`: what it returns, and the
memory it leaves.  `mapShm` is the memory that `mapShm()` attaches, if it does. -/
def shmWrite (maxNode : ℕ) (mapShm : Option (List NodeSHMInfo)) (pNodeInfo : NodeSHMInfo) :
    Outcome (ℤ × Option (List NodeSHMInfo)) :=
  match mapShm with
  | none => ok (-1, none)
  | some pAddr => do
      let found ← firstSlot (sameIds (pNodeInfo.ptr clientID.off) (pNodeInfo.ptr serverID.off))
        maxNode pAddr
      match found with
      | some i => ok (0, some (pAddr.set i pNodeInfo))
      | none => do
          let free ← firstSlot (fun pNode => ok (NodeSHMInfo.empty = pNode)) maxNode pAddr
          match free with
          | some i => ok (0, some (pAddr.set i pNodeInfo))
          | none => ok (-1, some pAddr)

/-- `shmRead`: what it returns, and what it leaves in `*pNodeInfo`. -/
def shmRead (maxNode : ℕ) (mapShm : Option (List NodeSHMInfo)) (clientID serverID : Bytes)
    (pNodeInfo : NodeSHMInfo) : Outcome (ℤ × NodeSHMInfo) :=
  match mapShm with
  | none => ok (-1, pNodeInfo)
  | some pAddr => do
      let found ← firstSlot (sameIds clientID serverID) maxNode pAddr
      match found with
      | some i =>
          match pAddr[i]? with
          | some pNode => ok (0, pNode)
          | none => fault .readOutOfBounds
      | none => ok (-1, pNodeInfo)

/-- What `shmRead` returns and leaves for the record it finds, if it finds one. -/
def readResult (pNodeInfo : NodeSHMInfo) : Option NodeSHMInfo → ℤ × NodeSHMInfo
  | some info => (0, info)
  | none => (-1, pNodeInfo)

/-! ## The functions on a table -/

section Searches

variable {clientID serverID : Bytes} {info : NodeSHMInfo} {t : List NodeSHMInfo}

theorem sameIds_eq (hclient : 0 ∈ clientID) (hserver : 0 ∈ serverID) (hinfo : info.IdsTerminated) :
    sameIds clientID serverID info =
      ok (decide (info.ids = (cString clientID, cString serverID))) :=
  CObject.bothEqual_eq hinfo.clientID hinfo.serverID hclient hserver

theorem shmWrite_eq (ht : ∀ x ∈ t, x.IdsTerminated) (hinfo : info.IdsTerminated) :
    shmWrite t.length (some t) info = ok (match SlotTable.put ids .empty t info with
      | some t' => (0, some t')
      | none => (-1, some t)) := by
  have hids : ∀ x ∈ t, sameIds (info.ptr NodeSHMInfo.clientID.off)
      (info.ptr NodeSHMInfo.serverID.off) x = ok (decide (x.ids = info.ids)) := fun x hx =>
    sameIds_eq (List.mem_of_mem_take hinfo.clientID) (List.mem_of_mem_take hinfo.serverID) (ht x hx)
  have hempty : ∀ x ∈ t, (ok (decide (NodeSHMInfo.empty = x)) : Outcome Bool) =
      ok (decide (x = NodeSHMInfo.empty)) := by
    simp [eq_comm]
  simp only [shmWrite, firstSlot_eq hids, firstSlot_eq hempty, ok_bind, SlotTable.put,
    SlotTable.slotFor]
  cases t.findIdx? (ids · = info.ids) with
  | some i => rfl
  | none =>
      cases t.findIdx? (· = NodeSHMInfo.empty) with
      | some i => rfl
      | none => rfl

/-- `shmRead` finds the first record with the ids. -/
theorem shmRead_eq (out : NodeSHMInfo) (ht : ∀ x ∈ t, x.IdsTerminated) (hclient : 0 ∈ clientID)
    (hserver : 0 ∈ serverID) :
    shmRead t.length (some t) clientID serverID out =
      ok (readResult out (t.find? (ids · = (cString clientID, cString serverID)))) := by
  have hids : ∀ x ∈ t, sameIds clientID serverID x =
      ok (decide (x.ids = (cString clientID, cString serverID))) := fun x hx =>
    sameIds_eq hclient hserver (ht x hx)
  simp only [shmRead, firstSlot_eq hids, ok_bind]
  rw [List.find?_eq_bind_findIdx?_getElem?]
  cases hi : t.findIdx? (ids · = (cString clientID, cString serverID)) with
  | none => rfl
  | some i =>
      obtain ⟨hlt, -⟩ := List.findIdx?_eq_some_iff_getElem.mp hi
      simp [List.getElem?_eq_getElem hlt, readResult]

end Searches

theorem ids_empty : NodeSHMInfo.empty.ids = ([], []) := by decide +kernel

theorem idsTerminated_empty : NodeSHMInfo.empty.IdsTerminated :=
  ⟨by decide +kernel, by decide +kernel⟩

/-! ## Tables in step with what was written -/

/-- A record that may be written: its ids end, and are not both empty. -/
structure Storable (info : NodeSHMInfo) : Prop where
  terminated : info.IdsTerminated
  ids_ne : info.ids ≠ ([], [])

/-- A table of `maxNode` nodes that holds the latest of the records written. -/
structure Holding (maxNode : ℕ) (written t : List NodeSHMInfo) : Prop where
  length_eq : t.length = maxNode
  terminated : ∀ x ∈ t, x.IdsTerminated
  records : SlotTable.Records ids .empty written t
  emptyLast : t.Pairwise fun x y => x = .empty → y = .empty
  writtenIds : ∀ r ∈ written, r.ids ≠ ([], [])

section Tables

variable {maxNode : ℕ} {written t t' : List NodeSHMInfo} {info out : NodeSHMInfo}
  {clientID serverID : Bytes}

theorem holding_replicate (maxNode : ℕ) : Holding maxNode [] (List.replicate maxNode .empty) where
  length_eq := List.length_replicate
  terminated x hx := by
    rw [List.eq_of_mem_replicate hx]
    exact idsTerminated_empty
  records := SlotTable.records_replicate maxNode
  emptyLast := List.pairwise_replicate.mpr (Or.inr fun _ => rfl)
  writtenIds := by simp

theorem Holding.put (h : Holding maxNode written t) (hinfo : Storable info)
    (hput : SlotTable.put ids .empty t info = some t') : Holding maxNode (info :: written) t' where
  length_eq := (SlotTable.length_put hput).trans h.length_eq
  terminated x hx := by
    obtain ⟨i, -, rfl⟩ := SlotTable.put_eq_some.mp hput
    rcases List.mem_or_eq_of_mem_set hx with hx | rfl
    · exact h.terminated x hx
    · exact hinfo.terminated
  records := h.records.put hput
  emptyLast := SlotTable.blank_suffix_put h.emptyLast (ids_empty ▸ hinfo.ids_ne) hput
  writtenIds := List.forall_mem_cons.mpr ⟨hinfo.ids_ne, h.writtenIds⟩

/-- `shmWrite` succeeds and stores the record, or there is no slot for it. -/
theorem Holding.shmWrite_cases (h : Holding maxNode written t) (hinfo : Storable info) :
    (∃ t', SlotTable.put ids .empty t info = some t' ∧
        shmWrite maxNode (some t) info = ok (0, some t')) ∨
      SlotTable.put ids .empty t info = none ∧
        shmWrite maxNode (some t) info = ok (-1, some t) := by
  have heq := shmWrite_eq h.terminated hinfo.terminated
  rw [h.length_eq] at heq
  cases hput : SlotTable.put ids .empty t info with
  | some t' => exact Or.inl ⟨t', rfl, by rw [heq, hput]⟩
  | none => exact Or.inr ⟨rfl, by rw [heq, hput]⟩

theorem Holding.shmRead_eq (h : Holding maxNode written t) (hclient : 0 ∈ clientID)
    (hserver : 0 ∈ serverID) (hids : (cString clientID, cString serverID) ≠ ([], [])) :
    shmRead maxNode (some t) clientID serverID out =
      ok (readResult out (SlotTable.latest ids written (cString clientID, cString serverID))) := by
  have heq := SecKeyShm.shmRead_eq out h.terminated hclient hserver
  rw [h.length_eq, h.records.find?_eq (ids_empty ▸ hids)] at heq
  exact heq

/-- There is no slot for a record exactly if its ids are new and as many pairs of ids
as there are nodes were written. -/
theorem Holding.put_eq_none_iff (h : Holding maxNode written t) (hinfo : Storable info) :
    SlotTable.put ids .empty t info = none ↔
      SlotTable.latest ids written info.ids = none ∧ (written.map ids).toFinset.card = maxNode := by
  have hkeys : ∀ r ∈ written, r.ids ≠ NodeSHMInfo.empty.ids := by
    rw [ids_empty]
    exact h.writtenIds
  rw [SlotTable.put_eq_none, h.records.no_blank_iff hkeys, h.length_eq,
    ← h.records.find?_eq (ids_empty ▸ hinfo.ids_ne), List.find?_eq_none]
  simp

end Tables

/-! ## Runs of one object -/

/-- The memory, and the records that were written to it, latest first. -/
structure ShmState where
  table : List NodeSHMInfo
  written : List NodeSHMInfo

/-- A call of one of the two functions. -/
inductive ShmCall where
  | shmWrite (pNodeInfo : NodeSHMInfo)
  | shmRead (clientID serverID : Bytes) (pNodeInfo : NodeSHMInfo)

/-- The ids end, and are not both empty. -/
def ShmCall.Admissible : ShmCall → Prop
  | .shmWrite pNodeInfo => Storable pNodeInfo
  | .shmRead clientID serverID _ =>
      0 ∈ clientID ∧ 0 ∈ serverID ∧ (cString clientID, cString serverID) ≠ ([], [])

/-- A call on the segment, which is attached. -/
def step (maxNode : ℕ) (s : ShmState) : ShmCall → Outcome ShmState
  | .shmWrite pNodeInfo => do
      let (ret, memory) ← shmWrite maxNode (some s.table) pNodeInfo
      ok ⟨memory.getD s.table, if ret = 0 then pNodeInfo :: s.written else s.written⟩
  | .shmRead clientID serverID pNodeInfo => do
      let _ ← shmRead maxNode (some s.table) clientID serverID pNodeInfo
      ok s

/-- A zeroed segment of `maxNode` nodes. -/
def fresh (maxNode : ℕ) : ShmState :=
  ⟨List.replicate maxNode .empty, []⟩

/-- The table behaves as a finite map from pairs of ids to the latest records. -/
structure ActsAsMap (maxNode : ℕ) (s : ShmState) : Prop where
  /-- Two nodes with the same ids are both unused. -/
  unique : s.table.Pairwise fun x y => x.ids = y.ids → x = .empty ∧ y = .empty
  /-- No unused node lies before a used one. -/
  usedPrefix : s.table.Pairwise fun x y => y ≠ .empty → x ≠ .empty
  /-- `shmRead` copies out the latest record with the ids. -/
  read : ∀ clientID serverID out, (ShmCall.shmRead clientID serverID out).Admissible →
    shmRead maxNode (some s.table) clientID serverID out =
      ok (readResult out (SlotTable.latest ids s.written (cString clientID, cString serverID)))
  /-- `shmWrite` fails exactly if the ids are new and the table is full, and then
  changes nothing. -/
  write : ∀ info, Storable info → ∃ ret t', shmWrite maxNode (some s.table) info = ok (ret, some t') ∧
    (ret = 0 ∨ ret = -1) ∧
    (ret = -1 ↔ SlotTable.latest ids s.written info.ids = none ∧
      (s.written.map ids).toFinset.card = maxNode) ∧
    (ret = -1 → t' = s.table) ∧
    (ret = 0 → ∀ clientID serverID out, (ShmCall.shmRead clientID serverID out).Admissible →
      (cString clientID, cString serverID) ≠ info.ids →
      shmRead maxNode (some t') clientID serverID out =
        shmRead maxNode (some s.table) clientID serverID out)

/-- A table in step with what was written is a finite map. -/
theorem Holding.actsAsMap {maxNode : ℕ} {s : ShmState} (h : Holding maxNode s.written s.table) :
    ActsAsMap maxNode s where
  unique := by
    refine List.Pairwise.imp_of_mem (fun {x y} hx _ honce hids => ?_) h.records.once
    have hy := honce hids
    refine ⟨by_contra fun hne => ?_, hy⟩
    have hmem := List.mem_of_find?_eq_some (h.records.held x hx hne)
    exact h.writtenIds x hmem (by rw [hids, hy, ids_empty])
  usedPrefix := h.emptyLast.imp fun hxy hy hx => hy (hxy hx)
  read clientID serverID out hids := h.shmRead_eq hids.1 hids.2.1 hids.2.2
  write info hinfo := by
    have hfull := h.put_eq_none_iff hinfo
    rcases h.shmWrite_cases hinfo with ⟨t', hput, hwrite⟩ | ⟨hput, hwrite⟩
    · refine ⟨0, t', hwrite, Or.inl rfl, iff_of_false (by norm_num) ?_, by simp, ?_⟩
      · rw [← hfull, hput]
        simp
      · rintro - clientID serverID out ⟨hclient, hserver, hne⟩ hother
        rw [(h.put hinfo hput).shmRead_eq hclient hserver hne, h.shmRead_eq hclient hserver hne,
          SlotTable.latest_cons, if_neg (Ne.symm hother)]
    · exact ⟨-1, s.table, hwrite, Or.inr rfl, iff_of_true rfl (hfull.mp hput), fun _ => rfl, by simp⟩

theorem exists_step {maxNode : ℕ} (s : ShmState) (c : ShmCall) (h : Holding maxNode s.written s.table)
    (hc : c.Admissible) : ∃ s', step maxNode s c = ok s' ∧ Holding maxNode s'.written s'.table := by
  cases c with
  | shmRead clientID serverID out =>
      refine ⟨s, ?_, h⟩
      rw [step, h.shmRead_eq hc.1 hc.2.1 hc.2.2, ok_bind]
  | shmWrite info =>
      rcases h.shmWrite_cases hc with ⟨t', hput, hwrite⟩ | ⟨-, hwrite⟩
      · exact ⟨⟨t', info :: s.written⟩, by rw [step, hwrite]; rfl, h.put hc hput⟩
      · exact ⟨s, by rw [step, hwrite]; rfl, h⟩

/-- After any calls on a zeroed segment the table is a finite map. -/
theorem secKeyShm_actsAsMap (maxNode : ℕ) {calls : List ShmCall}
    (hcalls : ∀ c ∈ calls, c.Admissible) :
    ∃ s, run (step maxNode) calls (fresh maxNode) = ok s ∧ ActsAsMap maxNode s := by
  obtain ⟨s, hrun, hs⟩ := exists_run (fun s : ShmState => Holding maxNode s.written s.table)
    exists_step hcalls (s := fresh maxNode) (holding_replicate maxNode)
  exact ⟨s, hrun, hs.actsAsMap⟩

/-- A record with the client id `1` and the server id `2`. -/
def keyRecord : NodeSHMInfo :=
  ⟨intBytes 0 ++ intBytes 100 ++ 0x31 :: List.replicate 11 0 ++ 0x32 :: List.replicate 139 0, by simp⟩

/-- One node, and the same record twice. -/
theorem secKeyShm_actsAsMap_keyRecord :
    ∃ s, run (step 1) [.shmWrite keyRecord, .shmWrite keyRecord] (fresh 1) = ok s ∧ ActsAsMap 1 s := by
  have hrecord : (ShmCall.shmWrite keyRecord).Admissible :=
    ⟨⟨by decide +kernel, by decide +kernel⟩, by decide +kernel⟩
  exact secKeyShm_actsAsMap 1 (by simpa using hrecord)

end SecKeyShm

end SafeTransmission
