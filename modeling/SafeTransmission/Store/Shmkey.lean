import SafeTransmission.Library.CObject
import SafeTransmission.Library.Runs
import SafeTransmission.Library.SlotTable

/-!
# `shmkey`: the older table of keys

`shmPutdata` and `shmGetdata` work on an array of `keyinfo` like `SecKeyShm`, with
three differences that show.  `getshm` takes a first node with status -1 for a
failed `shmat`; `shmPutdata` returns zero also when there is no place for the
record; and nobody asks whether the ids are empty, so that unused nodes match a
search for empty ids.

What the calls of a run do is right exactly if none of them meets one of the three
(`shmkey_behaves_iff`).

## Strategy

* On a table whose first node is not marked, the two functions are a search and a store in a slot
  table (`shmPutdata_eq`, `shmGetdata_eq`).
* `Sound` is the invariant: the first node is not marked, and the table is in step with what was put
  (`Records`).
* A call is `Safe` if it meets none of the three differences.  For each of the two functions it is
  shown that it behaves exactly if it is safe (`Sound.put_iff`, `Sound.get_iff`), and that the state
  stays sound then (`Sound.step`).
-/

namespace SafeTransmission

open Outcome

/-- `keyinfo`. -/
abbrev KeyInfo := CObject 160

namespace KeyInfo

def status : Member := ⟨.int, 0, 4⟩

def clientId : Member := ⟨.chars, 4, 12⟩

def serverId : Member := ⟨.chars, 16, 12⟩

def seckeyid : Member := ⟨.int, 28, 4⟩

def seckey : Member := ⟨.chars, 32, 128⟩

/-- The two ids as strings. -/
def ids (info : KeyInfo) : Bytes × Bytes :=
  (info.str clientId.off, info.str serverId.off)

/-- Both ids end inside their arrays. -/
structure IdsTerminated (info : KeyInfo) : Prop where
  clientId : 0 ∈ info.chars clientId.off clientId.cap
  serverId : 0 ∈ info.chars serverId.off serverId.cap

/-- A node without content. -/
def empty : KeyInfo := .zero 160

theorem ids_empty : empty.ids = ([], []) := by decide +kernel

theorem idsTerminated_empty : empty.IdsTerminated :=
  ⟨by decide +kernel, by decide +kernel⟩

theorem status_empty : empty.int status.off ≠ -1 := by decide +kernel

theorem seckeyid_empty : empty.int seckeyid.off = 0 := by decide +kernel

end KeyInfo

namespace Shmkey

open KeyInfo

/-! ## The functions -/

/-- `getshm`: the attached memory, or `(void*)-1` as `none`.  `shm` is what `shmat`
attaches, if it does; the first node is looked at either way. -/
def getshm (shm : Option (List KeyInfo)) : Outcome (Option (List KeyInfo)) :=
  match shm with
  | some (node :: rest) => if node.int status.off = -1 then ok none else ok (some (node :: rest))
  | _ => fault .readOutOfBounds

/-- The nodes behind the pointer that `getshm` returned. -/
def nodes (head : Option (List KeyInfo)) : List KeyInfo :=
  head.getD []

/-- `shmPutdata` of an object with `maxnode` nodes: what it returns, and the memory
that it leaves. -/
def shmPutdata (maxnode : ℕ) (shm : Option (List KeyInfo)) (keydata : KeyInfo) :
    Outcome (ℤ × List KeyInfo) := do
  let head ← getshm shm
  let found ← firstSlot (fun info => info.bothEqual clientId serverId (keydata.ptr clientId.off)
    (keydata.ptr serverId.off)) maxnode (nodes head)
  match found with
  | some i => ok (0, (nodes head).set i keydata)
  | none => do
      let free ← firstSlot (fun info => ok (KeyInfo.empty = info)) maxnode (nodes head)
      match free with
      | some i => ok (0, (nodes head).set i keydata)
      | none => ok (0, nodes head)

/-- The test of `shmGetdata`. -/
def sameKey (clientId serverId : Bytes) (seckeyId : ℤ) (info : KeyInfo) : Outcome Bool := do
  let same ← info.bothEqual KeyInfo.clientId KeyInfo.serverId clientId serverId
  ok (same && info.int seckeyid.off = seckeyId)

/-- `shmGetdata`: the copy that it returns, null as `none`. -/
def shmGetdata (maxnode : ℕ) (shm : Option (List KeyInfo)) (clientId serverId : Bytes)
    (seckeyId : ℤ) : Outcome (Option KeyInfo) := do
  let head ← getshm shm
  let found ← firstSlot (sameKey clientId serverId seckeyId) maxnode (nodes head)
  match found with
  | some i =>
      match (nodes head)[i]? with
      | some info => ok (some info)
      | none => fault .readOutOfBounds
  | none => ok none

/-! ## The functions on a table -/

section Searches

variable {t : List KeyInfo} {keydata : KeyInfo} {clientId serverId : Bytes} {seckeyId : ℤ}

/-- The first node is not taken for a failed `shmat`. -/
def Readable (t : List KeyInfo) : Prop :=
  ∃ node rest, t = node :: rest ∧ node.int status.off ≠ -1

theorem getshm_eq (ht : Readable t) : getshm (some t) = ok (some t) := by
  obtain ⟨node, rest, rfl, hstatus⟩ := ht
  rw [getshm, if_neg hstatus]

theorem shmPutdata_eq (hshm : Readable t) (ht : ∀ x ∈ t, x.IdsTerminated)
    (hkeydata : keydata.IdsTerminated) :
    shmPutdata t.length (some t) keydata =
      ok (0, (SlotTable.put ids .empty t keydata).getD t) := by
  have hids : ∀ x ∈ t, x.bothEqual KeyInfo.clientId KeyInfo.serverId
      (keydata.ptr KeyInfo.clientId.off) (keydata.ptr KeyInfo.serverId.off) =
        ok (decide (x.ids = keydata.ids)) := fun x hx =>
    CObject.bothEqual_eq (ht x hx).clientId (ht x hx).serverId
      (List.mem_of_mem_take hkeydata.clientId) (List.mem_of_mem_take hkeydata.serverId)
  have hempty : ∀ x ∈ t, (ok (decide (KeyInfo.empty = x)) : Outcome Bool) =
      ok (decide (x = KeyInfo.empty)) := by
    simp [eq_comm]
  simp only [shmPutdata, getshm_eq hshm, ok_bind, nodes, Option.getD_some, firstSlot_eq hids,
    firstSlot_eq hempty, SlotTable.put, SlotTable.slotFor]
  cases t.findIdx? (ids · = keydata.ids) with
  | some i => rfl
  | none =>
      cases t.findIdx? (· = KeyInfo.empty) with
      | some i => rfl
      | none => rfl

theorem shmGetdata_eq (hshm : Readable t) (ht : ∀ x ∈ t, x.IdsTerminated)
    (hclient : 0 ∈ clientId) (hserver : 0 ∈ serverId) :
    shmGetdata t.length (some t) clientId serverId seckeyId =
      ok (t.find? fun x => x.ids = (cString clientId, cString serverId) &&
        x.int seckeyid.off = seckeyId) := by
  have hkey : ∀ x ∈ t, sameKey clientId serverId seckeyId x =
      ok (decide (x.ids = (cString clientId, cString serverId)) &&
        decide (x.int seckeyid.off = seckeyId)) := by
    intro x hx
    rw [sameKey, CObject.bothEqual_eq (ht x hx).clientId (ht x hx).serverId hclient hserver]
    rfl
  simp only [shmGetdata, getshm_eq hshm, ok_bind, nodes, Option.getD_some, firstSlot_eq hkey]
  rw [List.find?_eq_bind_findIdx?_getElem?]
  cases hi : t.findIdx? fun x => decide (x.ids = (cString clientId, cString serverId)) &&
      decide (x.int seckeyid.off = seckeyId) with
  | none => rfl
  | some i =>
      obtain ⟨hlt, -⟩ := List.findIdx?_eq_some_iff_getElem.mp hi
      simp [List.getElem?_eq_getElem hlt]

/-- A first node with status -1 makes the search follow `(void*)-1`. -/
theorem shmGetdata_marked {node : KeyInfo} {rest : List KeyInfo}
    (hstatus : node.int status.off = -1) {maxnode : ℕ} (hpos : 0 < maxnode) :
    shmGetdata maxnode (some (node :: rest)) clientId serverId seckeyId = fault .readOutOfBounds := by
  obtain ⟨n, rfl⟩ := Nat.exists_eq_add_of_le' hpos
  rw [shmGetdata, getshm, if_pos hstatus]
  rfl

end Searches

/-! ## Runs of one object -/

/-- The memory, and the records whose `shmPutdata` returned zero, latest first. -/
structure ShmkeyState where
  table : List KeyInfo
  put : List KeyInfo

/-- A call of one of the two functions. -/
inductive ShmkeyCall where
  | shmPutdata (keydata : KeyInfo)
  | shmGetdata (clientId serverId : Bytes) (seckeyId : ℤ)

/-- The ids end. -/
def ShmkeyCall.Admissible : ShmkeyCall → Prop
  | .shmPutdata keydata => keydata.IdsTerminated
  | .shmGetdata clientId serverId _ => 0 ∈ clientId ∧ 0 ∈ serverId

/-- A call on the segment, which is attached. -/
def step (maxnode : ℕ) (s : ShmkeyState) : ShmkeyCall → Outcome ShmkeyState
  | .shmPutdata keydata => do
      let (ret, table) ← shmPutdata maxnode (some s.table) keydata
      ok ⟨table, if ret = 0 then keydata :: s.put else s.put⟩
  | .shmGetdata clientId serverId seckeyId => do
      let _ ← shmGetdata maxnode (some s.table) clientId serverId seckeyId
      ok s

/-- A zeroed segment of `maxnode` nodes. -/
def fresh (maxnode : ℕ) : ShmkeyState :=
  ⟨List.replicate maxnode .empty, []⟩

/-- All nodes are in use by records with other ids. -/
def FullOfOthers (t : List KeyInfo) (keydata : KeyInfo) : Prop :=
  ∀ x ∈ t, x ≠ .empty ∧ x.ids ≠ keydata.ids

/-- What a call should do.  `shmPutdata` returns zero only if the record is there for
`shmGetdata`, and fails on a full table; `shmGetdata` returns a record only if that
was the last one put with its ids. -/
def Behaves (maxnode : ℕ) (s : ShmkeyState) : ShmkeyCall → Prop
  | .shmPutdata keydata => ∃ ret t', shmPutdata maxnode (some s.table) keydata = ok (ret, t') ∧
      (ret = 0 → shmGetdata maxnode (some t') (keydata.ptr clientId.off) (keydata.ptr serverId.off)
        (keydata.int seckeyid.off) = ok (some keydata)) ∧
      (FullOfOthers s.table keydata → ret ≠ 0 ∧ t' = s.table)
  | .shmGetdata clientId serverId seckeyId =>
      ∃ found, shmGetdata maxnode (some s.table) clientId serverId seckeyId = ok found ∧
        ∀ info, found = some info → info.int seckeyid.off = seckeyId ∧
          SlotTable.latest ids s.put (cString clientId, cString serverId) = some info

/-- What makes a call behave.  There is a slot for the record, and not the first one if
the status is -1; a search for empty ids and the number 0 has no unused node to
find, or such a record was put last. -/
def Safe (s : ShmkeyState) : ShmkeyCall → Prop
  | .shmPutdata keydata => ∃ i, SlotTable.slotFor ids .empty s.table keydata.ids = some i ∧
      (keydata.int status.off = -1 → i ≠ 0)
  | .shmGetdata clientId serverId seckeyId =>
      (cString clientId, cString serverId) = ([], []) → seckeyId = 0 →
        (∀ x ∈ s.table, x ≠ .empty) ∨
          ∃ info, SlotTable.latest ids s.put ([], []) = some info ∧ info.int seckeyid.off = 0

/-- What is true as long as the calls were safe. -/
structure Sound (maxnode : ℕ) (s : ShmkeyState) : Prop where
  length_eq : s.table.length = maxnode
  terminated : ∀ x ∈ s.table, x.IdsTerminated
  records : SlotTable.Records ids .empty s.put s.table
  readable : Readable s.table

section Steps

variable {maxnode : ℕ} {s : ShmkeyState} {keydata info : KeyInfo} {clientId serverId : Bytes}
  {seckeyId : ℤ} {i : ℕ}

theorem sound_fresh (hpos : 0 < maxnode) : Sound maxnode (fresh maxnode) where
  length_eq := List.length_replicate
  terminated x hx := by
    rw [List.eq_of_mem_replicate hx]
    exact idsTerminated_empty
  records := SlotTable.records_replicate maxnode
  readable := by
    obtain ⟨n, rfl⟩ := Nat.exists_eq_add_of_le' hpos
    exact ⟨.empty, List.replicate n .empty, rfl, status_empty⟩

theorem Sound.shmPutdata_eq (h : Sound maxnode s) (hkeydata : keydata.IdsTerminated) :
    shmPutdata maxnode (some s.table) keydata =
      ok (0, (SlotTable.put ids .empty s.table keydata).getD s.table) :=
  h.length_eq ▸ Shmkey.shmPutdata_eq h.readable h.terminated hkeydata

theorem Sound.shmGetdata_eq (h : Sound maxnode s) (hclient : 0 ∈ clientId) (hserver : 0 ∈ serverId) :
    shmGetdata maxnode (some s.table) clientId serverId seckeyId =
      ok (s.table.find? fun x => x.ids = (cString clientId, cString serverId) &&
        x.int seckeyid.off = seckeyId) :=
  h.length_eq ▸ Shmkey.shmGetdata_eq h.readable h.terminated hclient hserver

/-- The first node is changed only by a record that is put there. -/
theorem readable_set {t : List KeyInfo} (ht : Readable t) (hstatus : keydata.int status.off = -1 → i ≠ 0) :
    Readable (t.set i keydata) := by
  obtain ⟨node, rest, rfl, hnode⟩ := ht
  cases i with
  | zero => exact ⟨keydata, rest, rfl, fun h => hstatus h rfl⟩
  | succ i => exact ⟨node, rest.set i keydata, rfl, hnode⟩

theorem Sound.put (h : Sound maxnode s) (hkeydata : keydata.IdsTerminated)
    (hi : SlotTable.slotFor ids .empty s.table keydata.ids = some i)
    (hstatus : keydata.int status.off = -1 → i ≠ 0) :
    Sound maxnode ⟨s.table.set i keydata, keydata :: s.put⟩ where
  length_eq := List.length_set.trans h.length_eq
  terminated x hx := by
    rcases List.mem_or_eq_of_mem_set hx with hx | rfl
    · exact h.terminated x hx
    · exact hkeydata
  records := h.records.put (SlotTable.put_eq_some.mpr ⟨i, hi, rfl⟩)
  readable := readable_set h.readable hstatus

/-- The record in the slot is the first one with its three values. -/
theorem find?_set {t : List KeyInfo} (hi : SlotTable.slotFor ids .empty t keydata.ids = some i) :
    ((t.set i keydata).find? fun x => x.ids = keydata.ids &&
      x.int seckeyid.off = keydata.int seckeyid.off) = some keydata := by
  obtain ⟨hlt, hslot⟩ := SlotTable.slotFor_spec hi
  refine List.find?_eq_some_iff_getElem.mpr ⟨by simp, i, by simpa using hlt, by simp, fun j hj => ?_⟩
  have hother : t[j].ids ≠ keydata.ids := by
    rcases hslot with ⟨-, hfirst⟩ | ⟨-, -, habsent⟩
    · exact hfirst j hj
    · exact habsent _ (List.getElem_mem _)
  simp [List.getElem_set_ne hj.ne', hother]

theorem Sound.put_iff (h : Sound maxnode s) (hpos : 0 < maxnode) (hkeydata : keydata.IdsTerminated) :
    Behaves maxnode s (.shmPutdata keydata) ↔ Safe s (.shmPutdata keydata) := by
  have hclient : 0 ∈ keydata.ptr KeyInfo.clientId.off := List.mem_of_mem_take hkeydata.clientId
  have hserver : 0 ∈ keydata.ptr KeyInfo.serverId.off := List.mem_of_mem_take hkeydata.serverId
  constructor
  · rintro ⟨ret, t', hput, hget, hfull⟩
    rw [h.shmPutdata_eq hkeydata, ok.injEq, Prod.mk.injEq] at hput
    obtain ⟨rfl, rfl⟩ := hput
    cases hi : SlotTable.slotFor ids .empty s.table keydata.ids with
    | none =>
        obtain ⟨hids, hempty⟩ := SlotTable.slotFor_eq_none.mp hi
        exact absurd rfl (hfull fun x hx => ⟨hempty x hx, hids x hx⟩).1
    | some i =>
        refine ⟨i, hi, ?_⟩
        rintro hstatus rfl
        have hget := hget rfl
        rw [SlotTable.put, hi, Option.map_some, Option.getD_some] at hget
        obtain ⟨node, rest, htable, -⟩ := h.readable
        rw [htable, List.set_cons_zero, shmGetdata_marked hstatus hpos] at hget
        cases hget
  · rintro ⟨i, hi, hstatus⟩
    have hput : SlotTable.put ids .empty s.table keydata = some (s.table.set i keydata) :=
      SlotTable.put_eq_some.mpr ⟨i, hi, rfl⟩
    refine ⟨0, s.table.set i keydata, by rw [h.shmPutdata_eq hkeydata, hput]; rfl, fun _ => ?_, fun hfull => ?_⟩
    · rw [(h.put hkeydata hi hstatus).shmGetdata_eq hclient hserver]
      exact congrArg ok (find?_set hi)
    · obtain ⟨hlt, ⟨hkey, -⟩ | ⟨hempty, -, -⟩⟩ := SlotTable.slotFor_spec hi
      · exact absurd hkey (hfull _ (List.getElem_mem hlt)).2
      · exact absurd hempty (hfull _ (List.getElem_mem hlt)).1

theorem Sound.get_iff (h : Sound maxnode s) (hclient : 0 ∈ clientId) (hserver : 0 ∈ serverId) :
    Behaves maxnode s (.shmGetdata clientId serverId seckeyId) ↔
      Safe s (.shmGetdata clientId serverId seckeyId) := by
  constructor
  · rintro ⟨found, hget, hfound⟩ hids hid
    rw [h.shmGetdata_eq hclient hserver, ok.injEq] at hget
    -- an unused node matches the search
    by_cases hused : ∀ x ∈ s.table, x ≠ .empty
    · exact Or.inl hused
    · push Not at hused
      obtain ⟨x, hx, rfl⟩ := hused
      cases found with
      | none =>
          have hnot := List.find?_eq_none.mp hget _ hx
          rw [hids, ids_empty, seckeyid_empty, hid] at hnot
          simp at hnot
      | some info =>
          obtain ⟨hnumber, hlatest⟩ := hfound info rfl
          rw [hids] at hlatest
          exact Or.inr ⟨info, hlatest, hnumber.trans hid⟩
  · intro hsafe
    refine ⟨_, h.shmGetdata_eq hclient hserver, fun info hinfo => ?_⟩
    have hmatch := List.find?_some hinfo
    rw [Bool.and_eq_true, decide_eq_true_eq, decide_eq_true_eq] at hmatch
    obtain ⟨hids, hnumber⟩ := hmatch
    have hmem := List.mem_of_find?_eq_some hinfo
    refine ⟨hnumber, ?_⟩
    by_cases hunused : info = .empty
    · -- an unused node was found, so the search was for what it holds
      subst hunused
      rw [ids_empty] at hids
      rw [seckeyid_empty] at hnumber
      rcases hsafe hids.symm hnumber.symm with hused | ⟨r, hr, hrnumber⟩
      · exact absurd rfl (hused _ hmem)
      · rw [← hids, hr]
        by_contra hne
        have hfind := h.records.find?_of_latest hr (fun hr => hne (congrArg some hr))
          (p := fun x => x.int seckeyid.off = seckeyId) (by simp [hrnumber, hnumber])
        rw [hids, hinfo] at hfind
        exact hne hfind.symm
    · rw [← hids]
      exact h.records.held info hmem hunused

/-- A call behaves exactly if it is safe. -/
theorem Sound.behaves_iff (h : Sound maxnode s) (hpos : 0 < maxnode) {c : ShmkeyCall}
    (hc : c.Admissible) : Behaves maxnode s c ↔ Safe s c := by
  cases c with
  | shmPutdata keydata => exact h.put_iff hpos hc
  | shmGetdata clientId serverId seckeyId => exact h.get_iff hc.1 hc.2

theorem Sound.step (h : Sound maxnode s) {c : ShmkeyCall} (hc : c.Admissible) (hsafe : Safe s c)
    {s' : ShmkeyState} (hstep : step maxnode s c = ok s') : Sound maxnode s' := by
  cases c with
  | shmPutdata keydata =>
      obtain ⟨i, hi, hstatus⟩ := hsafe
      have hput : SlotTable.put ids .empty s.table keydata = some (s.table.set i keydata) :=
        SlotTable.put_eq_some.mpr ⟨i, hi, rfl⟩
      rw [Shmkey.step, h.shmPutdata_eq hc, hput] at hstep
      obtain rfl := ok.inj hstep
      exact h.put hc hi hstatus
  | shmGetdata clientId serverId seckeyId =>
      rw [Shmkey.step, h.shmGetdata_eq hc.1 hc.2] at hstep
      obtain rfl := ok.inj hstep
      exact h

end Steps

/-- Every call of a run on a zeroed segment behaves, exactly if every call is safe. -/
theorem shmkey_behaves_iff {maxnode : ℕ} (hpos : 0 < maxnode) {calls : List ShmkeyCall}
    (hcalls : ∀ c ∈ calls, c.Admissible) :
    EachStep (step maxnode) (Behaves maxnode) calls (fresh maxnode) ↔
      EachStep (step maxnode) Safe calls (fresh maxnode) := by
  refine eachStep_iff (Sound maxnode) (fun s c hs hc => ?_) (fun s c s' hs hc hsafe hstep => ?_) hcalls
    (sound_fresh hpos)
  · exact hs.behaves_iff hpos hc
  · exact hs.step hc hsafe hstep

/-- A test whether a call is safe. -/
def isSafe (s : ShmkeyState) : ShmkeyCall → Bool
  | .shmPutdata keydata =>
      match SlotTable.slotFor ids .empty s.table keydata.ids with
      | none => false
      | some i => keydata.int status.off ≠ -1 || i ≠ 0
  | .shmGetdata clientId serverId seckeyId =>
      (cString clientId, cString serverId) ≠ ([], []) || seckeyId ≠ 0

theorem safe_of_isSafe (s : ShmkeyState) (c : ShmkeyCall) (h : isSafe s c = true) : Safe s c := by
  cases c with
  | shmPutdata keydata =>
      unfold isSafe at h
      dsimp only at h
      split at h
      · cases h
      · rename_i i hslot
        refine ⟨i, hslot, fun hstatus => ?_⟩
        simpa [hstatus] using h
  | shmGetdata clientId serverId seckeyId =>
      intro hids hnumber
      simp [isSafe, hids, hnumber] at h

/-- A record with the client id `1`, the server id `2` and the given status. -/
def keyRecord (status : ℤ) : KeyInfo :=
  ⟨intBytes status ++ 0x31 :: List.replicate 11 0 ++ 0x32 :: List.replicate 11 0 ++ intBytes 7 ++
    List.replicate 128 0, by simp⟩

/-- A record with the client id `3`, the server id `2` and the status -1. -/
def markedRecord : KeyInfo :=
  ⟨intBytes (-1) ++ 0x33 :: List.replicate 11 0 ++ 0x32 :: List.replicate 11 0 ++ intBytes 8 ++
    List.replicate 128 0, by simp⟩

/-- Two records fill a table, one of them with status -1 in the second node; both are read, one is
replaced, and one is looked for with a number that it does not have. -/
def twoRecords : List ShmkeyCall :=
  [.shmGetdata [0x31, 0] [0x32, 0] 7, .shmPutdata (keyRecord 0), .shmPutdata markedRecord,
    .shmGetdata [0x33, 0] [0x32, 0] 8, .shmPutdata (keyRecord 5), .shmGetdata [0x31, 0] [0x32, 0] 7,
    .shmGetdata [0x31, 0] [0x32, 0] 6]

theorem shmkey_behaves_twoRecords : EachStep (step 2) (Behaves 2) twoRecords (fresh 2) := by
  have hrecord : ∀ status ∈ [0, 5], (keyRecord status).IdsTerminated := by
    simp only [List.mem_cons, List.not_mem_nil, or_false, forall_eq_or_imp, forall_eq]
    exact ⟨⟨by decide +kernel, by decide +kernel⟩, by decide +kernel, by decide +kernel⟩
  refine (shmkey_behaves_iff (by norm_num) fun c hc => ?_).mpr
    (EachStep.of_test safe_of_isSafe (by decide +kernel))
  simp only [twoRecords, List.mem_cons, List.not_mem_nil, or_false] at hc
  rcases hc with rfl | rfl | rfl | rfl | rfl | rfl | rfl
  · exact ⟨by decide, by decide⟩
  · exact hrecord 0 (by simp)
  · exact ⟨by decide +kernel, by decide +kernel⟩
  · exact ⟨by decide, by decide⟩
  · exact hrecord 5 (by simp)
  · exact ⟨by decide, by decide⟩
  · exact ⟨by decide, by decide⟩

/-- A record with status -1 is put into the first node, and cannot be read any more. -/
theorem shmkey_status_lost :
    ¬ EachStep (step 1) (Behaves 1) [.shmPutdata (keyRecord (-1))] (fresh 1) := by
  rintro ⟨⟨ret, t', hput, hget, -⟩, -⟩
  have heval : shmPutdata 1 (some (fresh 1).table) (keyRecord (-1)) = ok (0, [keyRecord (-1)]) := by
    decide +kernel
  obtain ⟨rfl, rfl⟩ : 0 = ret ∧ [keyRecord (-1)] = t' := by
    simpa using heval.symm.trans hput
  have hget := hget rfl
  rw [shmGetdata_marked (by decide +kernel) (by norm_num)] at hget
  cases hget

end Shmkey

end SafeTransmission
