import SafeTransmission.Library.SharedMemory
import SafeTransmission.Store.Shmkey

/-!
# `shmClass`: whose segment it is

`deshm` destroys the segment, and `shmPutdata` calls it on every path, where its comment says that
it detaches; `shmGetdata` calls it when it has found a record.  The key then refers to no segment
any more, and a process that opens it gets a segment of its own.

So the segment is removed by the first record that is put, and what is right for other processes is
right for runs without records only (`shmkey_durable_iff`).  As for `ShareMemory` this is about keys
other than `IPC_PRIVATE`, and about nodes whose bytes an `int` can count.

## Strategy

As long as no call destroys the segment nothing is in it: `Unused`.

* `putShared_removes`: a record that is put removes the segment, wherever it goes in it.
* `getShared_unused`: a search finds something only if it looks for what unused nodes hold, that is
  for empty ids and the number zero; then it removes the segment too.
* `Unused.durable_iff` puts both together, one call at a time, and `Unused.step` goes on.
-/

namespace SafeTransmission

open Outcome

namespace ShmClass

/-! ## The functions -/

/-- `shmClass(key, size)`: `shmid`, -1 as `none`.  `shmget` takes `size` as a `size_t`. -/
def new (key size : ℤ) (k : Kernel ℤ KeyInfo) : Option ℕ × Kernel ℤ KeyInfo :=
  match k.shmget KeyInfo.empty 160 key (size % 2 ^ 64).toNat true true with
  | (some shmid, k) => (some shmid, k)
  | (none, k) => k.shmget KeyInfo.empty 160 key 0 false false

/-- What `shmat` attaches. -/
def attach (shmid : Option ℕ) (k : Kernel ℤ KeyInfo) : Option (List KeyInfo × Kernel ℤ KeyInfo) :=
  shmid.bind fun id => k.shmat id

/-- The attached memory became `memory`. -/
def assign (shmid : Option ℕ) (memory : List KeyInfo) (k : Kernel ℤ KeyInfo) : Kernel ℤ KeyInfo :=
  match shmid with
  | some id => k.write id memory
  | none => k

/-- `deshm`. -/
def deshm (shmid : Option ℕ) (k : Kernel ℤ KeyInfo) : Kernel ℤ KeyInfo :=
  match shmid with
  | some id => k.rmid id
  | none => k

end ShmClass

namespace Shmkey

open KeyInfo ShmClass

/-- `shmkey(key, maxnode)`: `sizeof(keyinfo) * maxnode` becomes an `int`. -/
def new (key : ℤ) (maxnode : ℕ) (k : Kernel ℤ KeyInfo) : Option ℕ × Kernel ℤ KeyInfo :=
  ShmClass.new key (toInt32 (160 * maxnode)) k

/-- `shmPutdata` of an object, with what it does to the segment. -/
def putShared (maxnode : ℕ) (shmid : Option ℕ) (keydata : KeyInfo) (k : Kernel ℤ KeyInfo) :
    Outcome (ℤ × Kernel ℤ KeyInfo) :=
  match attach shmid k with
  | none => do
      let (ret, _) ← shmPutdata maxnode none keydata
      ok (ret, deshm shmid k)
  | some (shm, k) => do
      let (ret, memory) ← shmPutdata maxnode (some shm) keydata
      ok (ret, deshm shmid (assign shmid memory k))

/-- `shmGetdata` of an object, with what it does to the segment. -/
def getShared (maxnode : ℕ) (shmid : Option ℕ) (clientId serverId : Bytes) (seckeyId : ℤ)
    (k : Kernel ℤ KeyInfo) : Outcome (Option KeyInfo × Kernel ℤ KeyInfo) :=
  match attach shmid k with
  | none => do
      let found ← shmGetdata maxnode none clientId serverId seckeyId
      ok (found, k)
  | some (shm, k) => do
      let found ← shmGetdata maxnode (some shm) clientId serverId seckeyId
      match found with
      | some info => ok (some info, deshm shmid k)
      | none => ok (none, k)

/-! ## Runs of many processes -/

/-- The kernel, `shmid` of the object of each process, and the records whose
`shmPutdata` returned zero, latest first. -/
structure ProcessState where
  kernel : Kernel ℤ KeyInfo
  objects : List (Option ℕ)
  put : List KeyInfo

/-- A constructor, or a call of a function of the object of process `i`. -/
inductive ProcessCall where
  | construct
  | shmPutdata (i : ℕ) (keydata : KeyInfo)
  | shmGetdata (i : ℕ) (clientId serverId : Bytes) (seckeyId : ℤ)

/-- The ids end. -/
def ProcessCall.Admissible : ProcessCall → Prop
  | .construct => True
  | .shmPutdata _ keydata => keydata.IdsTerminated
  | .shmGetdata _ clientId serverId _ => 0 ∈ clientId ∧ 0 ∈ serverId

/-- One call; a call of a process without an object does nothing. -/
def processStep (key : ℤ) (maxnode : ℕ) (s : ProcessState) : ProcessCall → Outcome ProcessState
  | .construct =>
      match Shmkey.new key maxnode s.kernel with
      | (shmid, kernel) => ok { s with kernel, objects := s.objects ++ [shmid] }
  | .shmPutdata i keydata =>
      match s.objects[i]? with
      | none => ok s
      | some shmid => do
          let (ret, kernel) ← putShared maxnode shmid keydata s.kernel
          ok { s with kernel, put := if ret = 0 then keydata :: s.put else s.put }
  | .shmGetdata i clientId serverId seckeyId =>
      match s.objects[i]? with
      | none => ok s
      | some shmid => do
          let (_, kernel) ← getShared maxnode shmid clientId serverId seckeyId s.kernel
          ok { s with kernel }

/-- No segment and no object. -/
def ProcessState.init : ProcessState :=
  ⟨.boot, [], []⟩

/-- What a call of a process should do: the key refers to the same segment as before,
and `shmGetdata` returns the record that was put last with the ids, if it has the
number. -/
def Durable (key : ℤ) (maxnode : ℕ) (s : ProcessState) : ProcessCall → Prop
  | .construct => True
  | .shmPutdata i keydata => ∀ shmid, s.objects[i]? = some shmid →
      ∃ ret k, putShared maxnode shmid keydata s.kernel = ok (ret, k) ∧
        k.idOf key = s.kernel.idOf key
  | .shmGetdata i clientId serverId seckeyId => ∀ shmid, s.objects[i]? = some shmid →
      ∃ found k, getShared maxnode shmid clientId serverId seckeyId s.kernel = ok (found, k) ∧
        k.idOf key = s.kernel.idOf key ∧
        ∀ info, SlotTable.latest ids s.put (cString clientId, cString serverId) = some info →
          info.int seckeyid.off = seckeyId → found = some info

/-- A call that does not destroy the segment: no record is put, and none is looked for
that an unused node would be. -/
def Harmless (s : ProcessState) : ProcessCall → Prop
  | .construct => True
  | .shmPutdata i _ => s.objects[i]? = none
  | .shmGetdata i clientId serverId seckeyId => s.objects[i]? = none ∨
      ¬ ((cString clientId, cString serverId) = ([], []) ∧ seckeyId = 0)

/-- What is true as long as the calls were harmless: there is no object yet, or all
objects have the segment of the key, which is unused. -/
inductive Unused (key : ℤ) (maxnode : ℕ) : ProcessState → Prop where
  | noSegment {k : Kernel ℤ KeyInfo} (hid : k.idOf key = none) : Unused key maxnode ⟨k, [], []⟩
  | opened {k : Kernel ℤ KeyInfo} {id : ℕ} {objects : List (Option ℕ)} (hid : k.idOf key = some id)
      (hcontent : k.Has id (List.replicate maxnode .empty))
      (hobjects : ∀ shmid ∈ objects, shmid = some id) : Unused key maxnode ⟨k, objects, []⟩

section Steps

variable {key : ℤ} {maxnode id : ℕ} {k : Kernel ℤ KeyInfo} {s s' : ProcessState} {keydata : KeyInfo}
  {clientId serverId : Bytes} {seckeyId : ℤ}

section Constructor

variable (hkey : key ≠ 0)
include hkey

theorem new_create (hpos : 0 < maxnode) (hsize : 160 * maxnode < 2 ^ 31) (hid : k.idOf key = none) :
    ∃ id k', Shmkey.new key maxnode k = (some id, k') ∧ k'.idOf key = some id ∧
      k'.Has id (List.replicate maxnode .empty) := by
  obtain ⟨id, k', hget, hid', hcontent⟩ :=
    Kernel.shmget_create hkey hid KeyInfo.empty true (by omega : 0 < 160 * maxnode) (by omega)
  have hbytes : ((160 * maxnode : ℤ) % 2 ^ 64).toNat = 160 * maxnode := by
    rw [Int.emod_eq_of_lt (by omega) (by omega)]
    omega
  refine ⟨id, k', ?_, hid', hcontent⟩
  rw [Shmkey.new, toInt32_of_range (by omega) (by omega), ShmClass.new, hbytes, hget]

theorem new_open {t : List KeyInfo} (hid : k.idOf key = some id) (hcontent : k.Has id t) :
    Shmkey.new key maxnode k = (some id, k) := by
  rw [Shmkey.new, ShmClass.new, Kernel.shmget_excl hkey hid hcontent]
  exact Kernel.shmget_open hkey hid hcontent rfl (Nat.zero_le _)

end Constructor

theorem putShared_removes (hpos : 0 < maxnode) (hid : k.idOf key = some id)
    (hcontent : k.Has id (List.replicate maxnode .empty)) (hkeydata : keydata.IdsTerminated) :
    ∃ k', putShared maxnode (some id) keydata k = ok (0, k') ∧ k'.idOf key = none := by
  obtain ⟨k₁, hat, -, hidOf⟩ := hcontent.shmat
  obtain ⟨memory, hput⟩ : ∃ memory, shmPutdata maxnode (some (List.replicate maxnode .empty)) keydata =
      ok (0, memory) := ⟨_, (sound_fresh hpos).shmPutdata_eq hkeydata⟩
  refine ⟨deshm (some id) (assign (some id) memory k₁),
    by simp only [putShared, attach, Option.bind_some, hat, hput, ok_bind], ?_⟩
  exact Kernel.idOf_rmid (by rw [assign, Kernel.idOf_write, hidOf, hid])

/-- `shmGetdata` of an unused segment: a search that an unused node meets removes the
segment, and every other finds nothing. -/
theorem getShared_unused (seckeyId : ℤ) (hpos : 0 < maxnode) (hid : k.idOf key = some id)
    (hcontent : k.Has id (List.replicate maxnode .empty)) (hclient : 0 ∈ clientId)
    (hserver : 0 ∈ serverId) :
    ∃ found k', getShared maxnode (some id) clientId serverId seckeyId k = ok (found, k') ∧
      if (cString clientId, cString serverId) = ([], []) ∧ seckeyId = 0 then k'.idOf key = none
      else k'.idOf key = some id ∧ k'.Has id (List.replicate maxnode .empty) := by
  obtain ⟨k₁, hat, hcontent₁, hidOf⟩ := hcontent.shmat
  have hmatch : (decide (KeyInfo.empty.ids = (cString clientId, cString serverId)) &&
      decide (KeyInfo.empty.int seckeyid.off = seckeyId)) =
        decide ((cString clientId, cString serverId) = ([], []) ∧ seckeyId = 0) := by
    rw [ids_empty, seckeyid_empty, Bool.decide_and]
    congr 1 <;> exact decide_eq_decide.mpr eq_comm
  have hget : shmGetdata maxnode (some (List.replicate maxnode .empty)) clientId serverId seckeyId =
      ok (if (cString clientId, cString serverId) = ([], []) ∧ seckeyId = 0 then some .empty
        else none) := by
    refine ((sound_fresh hpos).shmGetdata_eq hclient hserver).trans (congrArg ok ?_)
    rw [fresh, List.find?_replicate, if_neg hpos.ne', hmatch]
    simp only [decide_eq_true_eq]
  by_cases hunused : (cString clientId, cString serverId) = ([], []) ∧ seckeyId = 0
  · rw [if_pos hunused] at hget
    refine ⟨some .empty, deshm (some id) k₁,
      by simp only [getShared, attach, Option.bind_some, hat, hget, ok_bind], ?_⟩
    rw [if_pos hunused]
    exact Kernel.idOf_rmid (by rw [hidOf, hid])
  · rw [if_neg hunused] at hget
    refine ⟨none, k₁, by simp only [getShared, attach, Option.bind_some, hat, hget, ok_bind], ?_⟩
    rw [if_neg hunused]
    exact ⟨hidOf ▸ hid, hcontent₁⟩

/-- A call is durable exactly if it is harmless, and then nothing is used. -/
theorem Unused.durable_iff (h : Unused key maxnode s) (hpos : 0 < maxnode) {c : ProcessCall}
    (hc : c.Admissible) : Durable key maxnode s c ↔ Harmless s c := by
  cases h with
  | @noSegment k hid =>
      cases c with
      | construct => exact Iff.rfl
      | shmPutdata i keydata => exact iff_of_true (by simp [Durable]) rfl
      | shmGetdata i clientId serverId seckeyId => exact iff_of_true (by simp [Durable]) (Or.inl rfl)
  | @opened k id objects hid hcontent hobjects =>
      cases c with
      | construct => exact Iff.rfl
      | shmPutdata i keydata =>
          -- the put removes the segment, so this is not durable
          obtain ⟨k', hput, hremoved⟩ := putShared_removes hpos hid hcontent hc
          constructor
          · intro hdurable
            by_contra hobject
            obtain ⟨shmid, hi⟩ := Option.ne_none_iff_exists'.mp hobject
            obtain rfl := hobjects shmid (List.mem_of_getElem? hi)
            obtain ⟨ret, k'', hput', hkept⟩ := hdurable _ hi
            obtain ⟨-, rfl⟩ := Prod.mk.inj (ok.inj (hput.symm.trans hput'))
            rw [hremoved, hid] at hkept
            cases hkept
          · intro (hobject : objects[i]? = none) shmid hi
            rw [hobject] at hi
            cases hi
      | shmGetdata i clientId serverId seckeyId =>
          obtain ⟨found, k', hget, hafter⟩ :=
            getShared_unused seckeyId hpos hid hcontent hc.1 hc.2
          constructor
          · intro hdurable
            by_contra hharmful
            obtain ⟨hobject, hunused⟩ := not_or.mp hharmful
            obtain ⟨shmid, hi⟩ := Option.ne_none_iff_exists'.mp hobject
            obtain rfl := hobjects shmid (List.mem_of_getElem? hi)
            obtain ⟨found', k'', hget', hkept, -⟩ := hdurable _ hi
            obtain ⟨-, rfl⟩ := Prod.mk.inj (ok.inj (hget.symm.trans hget'))
            rw [if_pos (not_not.mp hunused)] at hafter
            rw [hafter, hid] at hkept
            cases hkept
          · intro hharmless shmid hi
            obtain rfl := hobjects shmid (List.mem_of_getElem? hi)
            have hnot := hharmless.resolve_left (by simp [hi])
            rw [if_neg hnot] at hafter
            exact ⟨found, k', hget, by rw [hafter.1, hid], by simp [SlotTable.latest]⟩

theorem Unused.step (h : Unused key maxnode s) (hkey : key ≠ 0) (hpos : 0 < maxnode)
    (hsize : 160 * maxnode < 2 ^ 31) {c : ProcessCall} (hc : c.Admissible) (hharmless : Harmless s c)
    (hstep : processStep key maxnode s c = ok s') :
    Unused key maxnode s' := by
  cases h with
  | @noSegment k hid =>
      cases c with
      | construct =>
          -- the segment is created, with unused nodes
          obtain ⟨id, k', hnew, hid', hcontent⟩ := new_create hkey hpos hsize hid
          rw [processStep, hnew] at hstep
          obtain rfl := ok.inj hstep
          exact .opened hid' hcontent (by simp)
      | shmPutdata i keydata =>
          obtain rfl := ok.inj hstep
          exact .noSegment hid
      | shmGetdata i clientId serverId seckeyId =>
          obtain rfl := ok.inj hstep
          exact .noSegment hid
  | @opened k id objects hid hcontent hobjects =>
      cases c with
      | construct =>
          rw [processStep, new_open hkey hid hcontent] at hstep
          obtain rfl := ok.inj hstep
          refine .opened hid hcontent fun shmid hmem => ?_
          rcases List.mem_append.mp hmem with hmem | hmem
          · exact hobjects shmid hmem
          · exact List.mem_singleton.mp hmem
      | shmPutdata i keydata =>
          -- a harmless put is one on an object that is not there
          have hobject : objects[i]? = none := hharmless
          simp only [processStep, hobject, ok.injEq] at hstep
          subst hstep
          exact .opened hid hcontent hobjects
      | shmGetdata i clientId serverId seckeyId =>
          cases hi : objects[i]? with
          | none =>
              simp only [processStep, hi, ok.injEq] at hstep
              subst hstep
              exact .opened hid hcontent hobjects
          | some shmid =>
              obtain rfl := hobjects shmid (List.mem_of_getElem? hi)
              obtain ⟨found, k', hget, hafter⟩ :=
                getShared_unused seckeyId hpos hid hcontent hc.1 hc.2
              -- a search for something else than unused nodes hold finds nothing
              rw [if_neg (hharmless.resolve_left (by simp [hi]))] at hafter
              simp only [processStep, hi, hget, ok_bind, ok.injEq] at hstep
              subst hstep
              exact .opened hafter.1 hafter.2 hobjects

end Steps

/-- Every call of a run of processes is durable, exactly if every call is harmless. -/
theorem shmkey_durable_iff {key : ℤ} (hkey : key ≠ 0) {maxnode : ℕ} (hpos : 0 < maxnode)
    (hsize : 160 * maxnode < 2 ^ 31) {calls : List ProcessCall} (hcalls : ∀ c ∈ calls, c.Admissible) :
    EachStep (processStep key maxnode) (Durable key maxnode) calls .init ↔
      EachStep (processStep key maxnode) Harmless calls .init := by
  refine eachStep_iff (Unused key maxnode) (fun s c hs hc => ?_)
    (fun s c s' hs hc hharmless hstep => ?_) hcalls (.noSegment rfl)
  · exact hs.durable_iff hpos hc
  · exact hs.step hkey hpos hsize hc hharmless hstep

/-- Three processes that look for records which are not there, one of them before the others have
started. -/
def lookups : List ProcessCall :=
  [.construct, .shmGetdata 0 [0x31, 0] [0x32, 0] 7, .construct, .shmGetdata 1 [0x31, 0] [0x32, 0] 7,
    .construct, .shmGetdata 2 [0] [0] 7, .shmGetdata 0 [0x33, 0] [0x32, 0] 0]

/-- A test whether a call is harmless. -/
def isHarmless (s : ProcessState) : ProcessCall → Bool
  | .construct => true
  | .shmPutdata i _ => s.objects[i]?.isNone
  | .shmGetdata i clientId serverId seckeyId => s.objects[i]?.isNone ||
      decide (¬((cString clientId, cString serverId) = ([], []) ∧ seckeyId = 0))

theorem harmless_of_isHarmless (s : ProcessState) (c : ProcessCall) (h : isHarmless s c = true) :
    Harmless s c := by
  cases c with
  | construct => trivial
  | shmPutdata i keydata => exact Option.isNone_iff_eq_none.mp h
  | shmGetdata i clientId serverId seckeyId =>
      rcases Bool.or_eq_true_iff.mp h with hobject | hids
      · exact Or.inl (Option.isNone_iff_eq_none.mp hobject)
      · exact Or.inr (of_decide_eq_true hids)

theorem shmkey_durable_lookups :
    EachStep (processStep 100 3) (Durable 100 3) lookups .init := by
  refine (shmkey_durable_iff (by norm_num) (by norm_num) (by norm_num) ?_).mpr
    (EachStep.of_test harmless_of_isHarmless (by decide +kernel))
  simp [lookups, ProcessCall.Admissible]

/-- The record that one process puts is not there for the next one. -/
theorem shmkey_put_lost :
    ∃ s, run (processStep 100 1) [.construct, .shmPutdata 0 (keyRecord 0), .construct] .init = ok s ∧
      s.put = [keyRecord 0] ∧ ¬ Durable 100 1 s (.shmGetdata 1 [0x31, 0] [0x32, 0] 7) := by
  have heval : (do
      let s ← run (processStep 100 1) [.construct, .shmPutdata 0 (keyRecord 0), .construct] .init
      let (found, _) ← getShared 1 (some 1) [0x31, 0] [0x32, 0] 7 s.kernel
      ok (found, s.objects, s.put)) = ok (none, [some 0, some 1], [keyRecord 0]) := by decide +kernel
  obtain ⟨s, hrun, hget⟩ := bind_eq_ok.mp heval
  obtain ⟨⟨found, k⟩, hget, hout⟩ := bind_eq_ok.mp hget
  obtain ⟨rfl, hobjects, hput⟩ : found = none ∧ s.objects = [some 0, some 1] ∧ s.put = [keyRecord 0] := by
    simpa using hout
  refine ⟨s, hrun, hput, fun hdurable => ?_⟩
  obtain ⟨found', k', hget', -, hfound⟩ := hdurable (some 1) (by simp [hobjects])
  obtain ⟨rfl, -⟩ := Prod.mk.inj (ok.inj (hget.symm.trans hget'))
  have hlatest : SlotTable.latest ids s.put (cString [0x31, 0], cString [0x32, 0]) =
      some (keyRecord 0) := by
    rw [hput]
    decide +kernel
  exact absurd (hfound _ hlatest (by decide +kernel)) (by simp)

end Shmkey

end SafeTransmission
