import SafeTransmission.Library.SharedMemory
import SafeTransmission.Store.SecKeyShm

/-!
# `ShareMemory`: many objects over one segment

The constructors that take a size create the segment of their key or open it, and set its memory to
zero in both cases.  An object that is constructed over a segment with records therefore removes
them for all objects.  Objects that are constructed only while the segment holds no record share
what they write (`shares_iff`).

## The size

`SecKeyShm` hands `maxNode * sizeof(NodeSHMInfo)` on as an `int`, so that the segment has `maxNode`
nodes only if an `int` can count their bytes (`shmSize_eq`): 26843546 nodes get 64 bytes.  And the
key zero is `IPC_PRIVATE`, for which every object gets a segment of its own.  The results are about
other keys, and about sizes that an `int` can count.

## Strategy

`InStep` says what is true as long as no record was lost: all objects have the segment of the key,
and it holds the latest records.

* `InStep.call`: `shmWrite` and `shmRead` keep it, whatever object they are called on.
* `InStep.construct`: so does a constructor that finds no record.
* `InStep.construct_loses`: a constructor that finds one loses it, because the record is the latest
  one under its ids and nobody reads it any more.

`eachStep_iff` makes the equivalence over runs of these.
-/

namespace SafeTransmission

open Outcome

namespace ShareMemory

open NodeSHMInfo

/-! ## The functions -/

/-- The nodes after `memset(addr, 0, shmSize)`, where `addr` points at the first one. -/
def zeroNodes (shmSize : ℕ) (addr : List NodeSHMInfo) : List NodeSHMInfo :=
  addr.mapIdx fun i pNode => pNode.zeroFirst (shmSize - 160 * i)

/-- `getShmID` with `IPC_CREAT`: `m_shmID`, -1 as `none`.  `shmget` takes `shmSize` as a `size_t`; a
segment that it opens has as many bytes. -/
def getShmID (key shmSize : ℤ) (k : Kernel ℤ NodeSHMInfo) :
    Outcome (Option ℕ × Kernel ℤ NodeSHMInfo) :=
  match k.shmget NodeSHMInfo.empty 160 key (shmSize % 2 ^ 64).toNat true false with
  | (m_shmID, k) =>
      if 0 < shmSize then
        match m_shmID with
        | some id =>
            match k.shmat id with
            | some (addr, k) => ok (some id, (k.write id (zeroNodes shmSize.toNat addr)).shmdt id)
            | none => fault .writeOutOfBounds
        | none => fault .writeOutOfBounds
      else ok (m_shmID, k)

/-- `mapShm`. -/
def mapShm (m_shmID : Option ℕ) (k : Kernel ℤ NodeSHMInfo) :
    Option (List NodeSHMInfo × Kernel ℤ NodeSHMInfo) :=
  m_shmID.bind fun id => k.shmat id

/-- `unmapShm`, after the memory became `memory`. -/
def unmapShm (m_shmID : Option ℕ) (memory : Option (List NodeSHMInfo))
    (k : Kernel ℤ NodeSHMInfo) : Kernel ℤ NodeSHMInfo :=
  match m_shmID, memory with
  | some id, some addr => (k.write id addr).shmdt id
  | some id, none => k.shmdt id
  | none, _ => k

end ShareMemory

namespace SecKeyShm

open NodeSHMInfo ShareMemory

/-- `maxNode * sizeof(NodeSHMInfo)`, which becomes an `int`. -/
def shmSize (maxNode : ℕ) : ℤ :=
  toInt32 (maxNode * 160)

/-- `SecKeyShm(key, maxNode)`. -/
def new (key : ℤ) (maxNode : ℕ) (k : Kernel ℤ NodeSHMInfo) :
    Outcome (Option ℕ × Kernel ℤ NodeSHMInfo) :=
  getShmID key (shmSize maxNode) k

/-- `shmWrite` of an object, from `mapShm` to `unmapShm`. -/
def writeShared (maxNode : ℕ) (m_shmID : Option ℕ) (pNodeInfo : NodeSHMInfo)
    (k : Kernel ℤ NodeSHMInfo) : Outcome (ℤ × Kernel ℤ NodeSHMInfo) :=
  match mapShm m_shmID k with
  | none => do
      let (ret, _) ← shmWrite maxNode none pNodeInfo
      ok (ret, k)
  | some (pAddr, k) => do
      let (ret, memory) ← shmWrite maxNode (some pAddr) pNodeInfo
      ok (ret, unmapShm m_shmID memory k)

/-- `shmRead` of an object, from `mapShm` to `unmapShm`. -/
def readShared (maxNode : ℕ) (m_shmID : Option ℕ) (clientID serverID : Bytes)
    (pNodeInfo : NodeSHMInfo) (k : Kernel ℤ NodeSHMInfo) :
    Outcome ((ℤ × NodeSHMInfo) × Kernel ℤ NodeSHMInfo) :=
  match mapShm m_shmID k with
  | none => do
      let out ← shmRead maxNode none clientID serverID pNodeInfo
      ok (out, k)
  | some (pAddr, k) => do
      let out ← shmRead maxNode (some pAddr) clientID serverID pNodeInfo
      ok (out, unmapShm m_shmID none k)

/-! ## Runs of many objects -/

/-- The kernel, `m_shmID` of each object, and the records that were written, latest
first. -/
structure SharedState where
  kernel : Kernel ℤ NodeSHMInfo
  objects : List (Option ℕ)
  written : List NodeSHMInfo

/-- A constructor, or a call of a function of the object `i`. -/
inductive SharedCall where
  | construct
  | shmWrite (i : ℕ) (pNodeInfo : NodeSHMInfo)
  | shmRead (i : ℕ) (clientID serverID : Bytes) (pNodeInfo : NodeSHMInfo)

/-- The ids end, and are not both empty. -/
def SharedCall.Admissible : SharedCall → Prop
  | .construct => True
  | .shmWrite _ pNodeInfo => Storable pNodeInfo
  | .shmRead _ clientID serverID _ =>
      0 ∈ clientID ∧ 0 ∈ serverID ∧ (cString clientID, cString serverID) ≠ ([], [])

/-- One call; a call of an object that was not constructed does nothing. -/
def sharedStep (key : ℤ) (maxNode : ℕ) (s : SharedState) : SharedCall → Outcome SharedState
  | .construct => do
      let (m_shmID, kernel) ← SecKeyShm.new key maxNode s.kernel
      ok { s with kernel, objects := s.objects ++ [m_shmID] }
  | .shmWrite i pNodeInfo =>
      match s.objects[i]? with
      | none => ok s
      | some m_shmID => do
          let (ret, kernel) ← writeShared maxNode m_shmID pNodeInfo s.kernel
          ok { s with kernel, written := if ret = 0 then pNodeInfo :: s.written else s.written }
  | .shmRead i clientID serverID pNodeInfo =>
      match s.objects[i]? with
      | none => ok s
      | some m_shmID => do
          let (_, kernel) ← readShared maxNode m_shmID clientID serverID pNodeInfo s.kernel
          ok { s with kernel }

/-- No segment and no object. -/
def SharedState.init : SharedState :=
  ⟨.boot, [], []⟩

/-- Whatever object reads, it gets the latest record with the ids, by whatever object
it was written. -/
def Shares (maxNode : ℕ) (s : SharedState) : Prop :=
  ∀ m_shmID ∈ s.objects, ∀ clientID serverID out, 0 ∈ clientID → 0 ∈ serverID →
    (cString clientID, cString serverID) ≠ ([], []) →
    ∃ k, readShared maxNode m_shmID clientID serverID out s.kernel =
      ok (readResult out (SlotTable.latest ids s.written (cString clientID, cString serverID)), k)

/-- The segment of the key, if there is one, has no record. -/
def HoldsNoRecord (key : ℤ) (s : SharedState) : Prop :=
  ∀ id t, s.kernel.idOf key = some id → s.kernel.Has id t → ∀ x ∈ t, x = .empty

/-- What is true as long as no record was lost: there is no object yet, or all objects
have the segment of the key, which holds the latest records. -/
inductive InStep (key : ℤ) (maxNode : ℕ) : SharedState → Prop where
  | noSegment {k : Kernel ℤ NodeSHMInfo} (hid : k.idOf key = none) : InStep key maxNode ⟨k, [], []⟩
  | opened {k : Kernel ℤ NodeSHMInfo} {id : ℕ} {t : List NodeSHMInfo} {objects : List (Option ℕ)}
      {written : List NodeSHMInfo} (hid : k.idOf key = some id) (hcontent : k.Has id t)
      (hobjects : ∀ m_shmID ∈ objects, m_shmID = some id) (hholding : Holding maxNode written t) :
      InStep key maxNode ⟨k, objects, written⟩

section Steps

variable {key : ℤ} {maxNode id : ℕ} {k k₁ : Kernel ℤ NodeSHMInfo} {t written : List NodeSHMInfo}
  {info : NodeSHMInfo} {clientID serverID : Bytes} {s : SharedState}

/-- Bytes that an `int` can count are counted right, as a `size_t` too. -/
theorem shmSize_eq (hsize : 160 * maxNode < 2 ^ 31) : shmSize maxNode = (160 * maxNode : ℕ) ∧
    (shmSize maxNode % 2 ^ 64).toNat = 160 * maxNode := by
  have heq : shmSize maxNode = (160 * maxNode : ℕ) := by
    rw [shmSize, toInt32_of_range (by omega) (by omega)]
    omega
  have hsame : ((160 * maxNode : ℕ) : ℤ) % 2 ^ 64 = (160 * maxNode : ℕ) :=
    Int.emod_eq_of_lt (by omega) (by omega)
  exact ⟨heq, by rw [heq, hsame, Int.toNat_natCast]⟩

theorem zeroNodes_eq {shmSize : ℕ} (hlen : 160 * t.length ≤ shmSize) :
    zeroNodes shmSize t = List.replicate t.length .empty := by
  refine List.eq_replicate_iff.mpr ⟨List.length_mapIdx, fun pNode hmem => ?_⟩
  obtain ⟨i, hi, rfl⟩ := List.mem_mapIdx.mp hmem
  exact CObject.zeroFirst_of_le (by omega) _

section Constructor

variable (hkey : key ≠ 0) (hpos : 0 < maxNode) (hsize : 160 * maxNode < 2 ^ 31)
include hpos hsize

theorem new_eq
    (hget : k.shmget NodeSHMInfo.empty 160 key (160 * maxNode) true false = (some id, k₁))
    (hcontent : k₁.Has id t) (hlen : t.length = maxNode) :
    ∃ k₂, k₁.shmat id = some (t, k₂) ∧ k₂.Has id t ∧ k₂.idOf = k₁.idOf ∧
      SecKeyShm.new key maxNode k =
        ok (some id, (k₂.write id (List.replicate maxNode .empty)).shmdt id) := by
  obtain ⟨k₂, hat, hcontent₂, hidOf⟩ := hcontent.shmat
  obtain ⟨hbytes, hcount⟩ := shmSize_eq hsize
  have hzero : zeroNodes (shmSize maxNode).toNat t = List.replicate maxNode .empty := by
    rw [zeroNodes_eq (by omega), hlen]
  have hgiven : 0 < shmSize maxNode := by omega
  refine ⟨k₂, hat, hcontent₂, hidOf, ?_⟩
  simp only [SecKeyShm.new, getShmID, hcount, hget, hgiven, reduceIte, hat, hzero]

include hkey

theorem shmget_create (hid : k.idOf key = none) :
    ∃ id k', k.shmget NodeSHMInfo.empty 160 key (160 * maxNode) true false = (some id, k') ∧
      k'.idOf key = some id ∧ k'.Has id (List.replicate maxNode NodeSHMInfo.empty) :=
  Kernel.shmget_create hkey hid NodeSHMInfo.empty false (by omega) (by omega)

theorem new_create (hid : k.idOf key = none) :
    ∃ id k', SecKeyShm.new key maxNode k = ok (some id, k') ∧ k'.idOf key = some id ∧
      k'.Has id (List.replicate maxNode .empty) := by
  obtain ⟨id, k₁, hget, hid₁, hcontent⟩ := shmget_create hkey hpos hsize hid
  obtain ⟨k₂, -, hcontent₂, hidOf, hnew⟩ :=
    new_eq hpos hsize hget hcontent List.length_replicate
  exact ⟨id, _, hnew, by rw [Kernel.idOf_shmdt, Kernel.idOf_write, hidOf, hid₁],
    (hcontent₂.write _).shmdt⟩

theorem new_open (hid : k.idOf key = some id) (hcontent : k.Has id t) (hlen : t.length = maxNode) :
    ∃ k', SecKeyShm.new key maxNode k = ok (some id, k') ∧ k'.idOf key = some id ∧
      k'.Has id (List.replicate maxNode .empty) := by
  have hget : k.shmget NodeSHMInfo.empty 160 key (160 * maxNode) true false = (some id, k) :=
    Kernel.shmget_open hkey hid hcontent rfl (by rw [hlen])
  obtain ⟨k₂, -, hcontent₂, hidOf, hnew⟩ := new_eq hpos hsize hget hcontent hlen
  exact ⟨_, hnew, by rw [Kernel.idOf_shmdt, Kernel.idOf_write, hidOf, hid],
    (hcontent₂.write _).shmdt⟩

end Constructor

theorem readShared_eq (out : NodeSHMInfo) (hcontent : k.Has id t) (hholding : Holding maxNode written t)
    (hclient : 0 ∈ clientID) (hserver : 0 ∈ serverID)
    (hids : (cString clientID, cString serverID) ≠ ([], [])) :
    ∃ k', readShared maxNode (some id) clientID serverID out k =
        ok (readResult out (SlotTable.latest ids written (cString clientID, cString serverID)), k') ∧
      k'.idOf = k.idOf ∧ k'.Has id t := by
  obtain ⟨k₁, hat, hcontent₁, hidOf⟩ := hcontent.shmat
  refine ⟨k₁.shmdt id, ?_, hidOf, hcontent₁.shmdt⟩
  simp only [readShared, mapShm, Option.bind_some, hat, hholding.shmRead_eq hclient hserver hids,
    ok_bind, unmapShm]

theorem writeShared_eq (hcontent : k.Has id t) (hholding : Holding maxNode written t)
    (hinfo : Storable info) :
    ∃ ret k' t', writeShared maxNode (some id) info k = ok (ret, k') ∧ k'.idOf = k.idOf ∧
      k'.Has id t' ∧ Holding maxNode (if ret = 0 then info :: written else written) t' := by
  obtain ⟨k₁, hat, hcontent₁, hidOf⟩ := hcontent.shmat
  have hshared : ∀ {ret t'}, shmWrite maxNode (some t) info = ok (ret, some t') →
      writeShared maxNode (some id) info k = ok (ret, (k₁.write id t').shmdt id) := by
    intro ret t' hwrite
    simp only [writeShared, mapShm, Option.bind_some, hat, hwrite, ok_bind, unmapShm]
  rcases hholding.shmWrite_cases hinfo with ⟨t', hput, hwrite⟩ | ⟨-, hwrite⟩
  · exact ⟨0, _, t', hshared hwrite, hidOf, (hcontent₁.write t').shmdt, hholding.put hinfo hput⟩
  · exact ⟨-1, _, t, hshared hwrite, hidOf, (hcontent₁.write t).shmdt, by simpa using hholding⟩

/-- As long as no record was lost, all objects share what was written. -/
theorem InStep.shares (h : InStep key maxNode s) : Shares maxNode s := by
  intro m_shmID hobject clientID serverID out hclient hserver hids
  cases h with
  | noSegment hid => simp at hobject
  | opened hid hcontent hobjects hholding =>
      rw [hobjects m_shmID hobject]
      obtain ⟨k', hread, -⟩ := readShared_eq out hcontent hholding hclient hserver hids
      exact ⟨k', hread⟩

theorem Holding.eq_replicate (h : Holding maxNode written t) (hempty : ∀ x ∈ t, x = .empty) :
    written = [] ∧ t = List.replicate maxNode .empty := by
  refine ⟨List.eq_nil_iff_forall_not_mem.mpr fun r hr => ?_, ?_⟩
  · obtain ⟨r', hlatest⟩ := SlotTable.exists_latest_iff.mpr (List.mem_map_of_mem (f := ids) hr)
    have hmem := h.records.complete _ r'
      (SlotTable.ne_blank_of_latest (ids_empty ▸ h.writtenIds r hr) hlatest) hlatest
    refine h.writtenIds r hr ?_
    rw [← SlotTable.key_of_latest hlatest, hempty r' hmem, ids_empty]
  · exact List.eq_replicate_iff.mpr ⟨h.length_eq, hempty⟩

theorem InStep.call (h : InStep key maxNode s) {c : SharedCall} (hc : c.Admissible)
    (hcall : c ≠ .construct) : ∃ s', sharedStep key maxNode s c = ok s' ∧ InStep key maxNode s' := by
  cases h with
  | @noSegment k hid =>
      cases c with
      | construct => exact absurd rfl hcall
      | shmWrite i info => exact ⟨_, rfl, .noSegment hid⟩
      | shmRead i clientID serverID out => exact ⟨_, rfl, .noSegment hid⟩
  | @opened k id t objects written hid hcontent hobjects hholding =>
      cases c with
      | construct => exact absurd rfl hcall
      | shmWrite i info =>
          cases hi : objects[i]? with
          | none => exact ⟨_, by simp only [sharedStep, hi], .opened hid hcontent hobjects hholding⟩
          | some m_shmID =>
              obtain rfl := hobjects m_shmID (List.mem_of_getElem? hi)
              obtain ⟨ret, k', t', hwrite, hidOf, hcontent', hholding'⟩ :=
                writeShared_eq hcontent hholding hc
              exact ⟨_, by simp only [sharedStep, hi, hwrite, ok_bind],
                .opened (hidOf ▸ hid) hcontent' hobjects hholding'⟩
      | shmRead i clientID serverID out =>
          cases hi : objects[i]? with
          | none => exact ⟨_, by simp only [sharedStep, hi], .opened hid hcontent hobjects hholding⟩
          | some m_shmID =>
              obtain rfl := hobjects m_shmID (List.mem_of_getElem? hi)
              obtain ⟨k', hread, hidOf, hcontent'⟩ :=
                readShared_eq out hcontent hholding hc.1 hc.2.1 hc.2.2
              exact ⟨_, by simp only [sharedStep, hi, hread, ok_bind],
                .opened (hidOf ▸ hid) hcontent' hobjects hholding⟩

theorem InStep.construct (h : InStep key maxNode s) (hkey : key ≠ 0) (hpos : 0 < maxNode)
    (hsize : 160 * maxNode < 2 ^ 31) (hempty : HoldsNoRecord key s) :
    ∃ s', sharedStep key maxNode s .construct = ok s' ∧ InStep key maxNode s' := by
  cases h with
  | @noSegment k hid =>
      obtain ⟨id, k', hget, hid', hcontent⟩ := new_create hkey hpos hsize hid
      exact ⟨⟨k', [some id], []⟩, by simp only [sharedStep, hget, ok_bind, List.nil_append],
        .opened hid' hcontent (by simp) (holding_replicate maxNode)⟩
  | @opened k id t objects written hid hcontent hobjects hholding =>
      obtain ⟨k', hget, hid', hcontent'⟩ := new_open hkey hpos hsize hid hcontent hholding.length_eq
      obtain ⟨-, ht⟩ := hholding.eq_replicate (hempty id t hid hcontent)
      refine ⟨⟨k', objects ++ [some id], written⟩, by simp only [sharedStep, hget, ok_bind],
        .opened hid' hcontent' ?_ (ht ▸ hholding)⟩
      intro m_shmID hmem
      rcases List.mem_append.mp hmem with hmem | hmem
      · exact hobjects m_shmID hmem
      · exact List.mem_singleton.mp hmem

/-- A constructor over a segment with a record loses the record. -/
theorem InStep.construct_loses (h : InStep key maxNode s) (hkey : key ≠ 0) (hpos : 0 < maxNode)
    (hsize : 160 * maxNode < 2 ^ 31) (hrecord : ¬ HoldsNoRecord key s) {s' : SharedState}
    (hstep : sharedStep key maxNode s .construct = ok s') : ¬ Shares maxNode s' := by
  cases h with
  | @noSegment k hid =>
      refine absurd (fun id t hsome => ?_) hrecord
      rw [hid] at hsome
      cases hsome
  | @opened k id t objects written hid hcontent hobjects hholding =>
      obtain ⟨x, hx, hne⟩ : ∃ x ∈ t, x ≠ NodeSHMInfo.empty := by
        by_contra hall
        push Not at hall
        refine hrecord fun id' t' hid' hcontent' => ?_
        obtain rfl : id = id' := Option.some.inj (hid.symm.trans hid')
        rw [← hcontent.unique hcontent']
        exact hall
      have hlatest := hholding.records.held x hx hne
      have hids := hholding.writtenIds x (List.mem_of_find?_eq_some hlatest)
      obtain ⟨k', hget, -, hcontent'⟩ := new_open hkey hpos hsize hid hcontent hholding.length_eq
      simp only [sharedStep, hget, ok_bind, ok.injEq] at hstep
      subst hstep
      intro hshares
      have hclient := List.mem_of_mem_take (hholding.terminated x hx).clientID
      have hserver := List.mem_of_mem_take (hholding.terminated x hx).serverID
      obtain ⟨k₁, hread⟩ := hshares (some id) (by simp) _ _ .empty hclient hserver hids
      obtain ⟨k₂, hread', -⟩ := readShared_eq .empty hcontent' (holding_replicate maxNode)
        hclient hserver hids
      rw [hread'] at hread
      have hresult := (Prod.mk.inj (ok.inj hread)).1
      change readResult NodeSHMInfo.empty none =
        readResult NodeSHMInfo.empty (SlotTable.latest ids written x.ids) at hresult
      rw [hlatest] at hresult
      exact absurd (Prod.mk.inj hresult).1 (by norm_num)

end Steps

/-- After each call of a run all objects share what was written, exactly if no object
is constructed while the segment holds a record. -/
theorem shares_iff {key : ℤ} (hkey : key ≠ 0) {maxNode : ℕ} (hpos : 0 < maxNode)
    (hsize : 160 * maxNode < 2 ^ 31) {calls : List SharedCall} (hcalls : ∀ c ∈ calls, c.Admissible) :
    EachStep (sharedStep key maxNode)
        (fun s c => ∃ s', sharedStep key maxNode s c = ok s' ∧ Shares maxNode s') calls .init ↔
      EachStep (sharedStep key maxNode) (fun s c => c = .construct → HoldsNoRecord key s) calls .init := by
  refine eachStep_iff (InStep key maxNode) (fun s c hs hc => ?_)
    (fun s c s' hs hc hcondition hstep => ?_) hcalls (.noSegment rfl)
  · constructor
    · rintro ⟨s', hstep, hshares⟩ rfl
      by_contra hrecord
      exact hs.construct_loses hkey hpos hsize hrecord hstep hshares
    · intro hcondition
      by_cases hconstruct : c = .construct
      · subst hconstruct
        obtain ⟨s', hstep, hs'⟩ := hs.construct hkey hpos hsize (hcondition rfl)
        exact ⟨s', hstep, hs'.shares⟩
      · obtain ⟨s', hstep, hs'⟩ := hs.call hc hconstruct
        exact ⟨s', hstep, hs'.shares⟩
  · by_cases hconstruct : c = .construct
    · subst hconstruct
      obtain ⟨s₁, hstep₁, hs₁⟩ := hs.construct hkey hpos hsize (hcondition rfl)
      obtain rfl := ok.inj (hstep.symm.trans hstep₁)
      exact hs₁
    · obtain ⟨s₁, hstep₁, hs₁⟩ := hs.call hc hconstruct
      obtain rfl := ok.inj (hstep.symm.trans hstep₁)
      exact hs₁

/-- A test whether a call meets the condition. -/
def findsNoRecord (key : ℤ) (s : SharedState) : SharedCall → Bool
  | .construct =>
      match s.kernel.idOf key with
      | none => true
      | some id =>
          match s.kernel.segments[id]? with
          | none => true
          | some seg => seg.content.all (· = .empty)
  | _ => true

theorem holdsNoRecord_of_test (key : ℤ) (s : SharedState) (c : SharedCall)
    (h : findsNoRecord key s c = true) (hc : c = .construct) : HoldsNoRecord key s := by
  subst hc
  intro id t hid hcontent
  obtain ⟨rest, nattch, hseg⟩ := hcontent
  simpa only [findsNoRecord, hid, hseg, List.all_eq_true, decide_eq_true_eq] using h

/-- A later record for the ids of `keyRecord`. -/
def laterRecord : NodeSHMInfo :=
  ⟨intBytes 0 ++ intBytes 101 ++ 0x31 :: List.replicate 11 0 ++ 0x32 :: List.replicate 139 0, by simp⟩

/-- Two objects are constructed; one writes a record, the other one reads and replaces it, and the
first one reads what replaced it. -/
def twoObjects : List SharedCall :=
  [.construct, .construct, .shmWrite 0 keyRecord, .shmRead 1 [0x31, 0] [0x32, 0] .empty,
    .shmWrite 1 laterRecord, .shmRead 0 [0x31, 0] [0x32, 0] .empty]

theorem shares_twoObjects :
    EachStep (sharedStep 100 2) (fun s c => ∃ s', sharedStep 100 2 s c = ok s' ∧ Shares 2 s')
      twoObjects .init := by
  have hrecord : Storable keyRecord := ⟨⟨by decide +kernel, by decide +kernel⟩, by decide +kernel⟩
  have hlater : Storable laterRecord := ⟨⟨by decide +kernel, by decide +kernel⟩, by decide +kernel⟩
  refine (shares_iff (by norm_num) (by norm_num) (by norm_num) ?_).mpr
    (EachStep.of_test (holdsNoRecord_of_test 100) (by decide +kernel))
  intro c hc
  simp only [twoObjects, List.mem_cons, List.not_mem_nil, or_false] at hc
  rcases hc with rfl | rfl | rfl | rfl | rfl | rfl
  · trivial
  · trivial
  · exact hrecord
  · exact ⟨by decide, by decide, by decide⟩
  · exact hlater
  · exact ⟨by decide, by decide, by decide⟩

/-- The constructor of a second object removes the record that the first one wrote. -/
theorem construct_loses_keyRecord :
    ∃ s, run (sharedStep 100 1) [.construct, .shmWrite 0 keyRecord, .construct] .init = ok s ∧
      s.written = [keyRecord] ∧ ¬ Shares 1 s := by
  have heval : (do
      let s ← run (sharedStep 100 1) [.construct, .shmWrite 0 keyRecord, .construct] .init
      let (out, _) ← readShared 1 (some 0) [0x31, 0] [0x32, 0] .empty s.kernel
      ok (out.1, s.objects, s.written)) = ok (-1, [some 0, some 0], [keyRecord]) := by decide +kernel
  obtain ⟨s, hrun, hread⟩ := bind_eq_ok.mp heval
  obtain ⟨⟨⟨ret, node⟩, k⟩, hread, hout⟩ := bind_eq_ok.mp hread
  obtain ⟨rfl, hobjects, hwritten⟩ : ret = -1 ∧ s.objects = [some 0, some 0] ∧
      s.written = [keyRecord] := by
    simpa using hout
  refine ⟨s, hrun, hwritten, fun hshares => ?_⟩
  obtain ⟨k', hread'⟩ := hshares (some 0) (by simp [hobjects]) [0x31, 0] [0x32, 0] .empty
    (by decide) (by decide) (by decide)
  have hlatest : SlotTable.latest ids s.written (cString [0x31, 0], cString [0x32, 0]) =
      some keyRecord := by
    rw [hwritten]
    decide +kernel
  rw [hlatest, hread] at hread'
  have hret : (-1 : ℤ) = 0 := congrArg Prod.fst (Prod.mk.inj (ok.inj hread')).1
  norm_num at hret

end SecKeyShm

end SafeTransmission
