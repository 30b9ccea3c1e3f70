import SafeTransmission.Agreement.KeyAgreement
import SafeTransmission.Library.Threads
import SafeTransmission.Store.Sharing

/-!
# Programs that share a table, and come and go

Every client program of a host makes its `SecKeyShm` with the same key.  The constructor sets the
memory to zero, and the destructor of `ClientOperation` removes it, whoever else uses it.  Behind
that the programs that are left keep the number of a segment that is gone: `shmWrite` fails, and
`secKeyAgree`, which does not look at its result, returns 0.

A program that has agreed on a key finds the latest record under its ids exactly as long as no
program starts while another one has a key, none quits while another one has a key in the same
segment, and no agreement comes when the segment is gone or full (`keeps_iff`).

All programs have the same number of nodes, and an `int` can count their bytes; otherwise the
constructor may write through the address that a failing `shmat` returns.  The key is not
`IPC_PRIVATE`.  Left out is how the key comes about: a call is the record that it writes.  A program
that is killed does not run its destructor.

## Strategy

There is never more than one segment, the one of the key (`Inv`), and its table reflects the latest
records of the programs that have agreed (`Reflects`).

* `Inv.start_cases` and `Inv.agree_cases` say what a start and an agreement do; a program that quits
  removes its segment (`Inv.removed`).
* One lemma for each event keeps `Inv` when the step is calm.
* `Inv.not_keeps_start`, `Inv.not_keeps_agree` and `Inv.not_keeps_quit` name the program that loses
  its key when the step is not.
-/

namespace SafeTransmission

open Outcome Codec

/-- `delShm`. -/
def ShareMemory.delShm (m_shmID : Option ℕ) (k : Kernel ℤ NodeSHMInfo) : Kernel ℤ NodeSHMInfo :=
  match m_shmID with
  | some id => k.rmid id
  | none => k

/-! ## Calls on a segment -/

namespace SecKeyShm

open ShareMemory NodeSHMInfo

section Segments

variable {key : ℤ} {maxNode id : ℕ} {k : Kernel ℤ NodeSHMInfo} {m_shmID : Option ℕ}
  {t : List NodeSHMInfo} {info : NodeSHMInfo}

theorem exists_new (hkey : key ≠ 0) (hpos : 0 < maxNode) (hsize : 160 * maxNode < 2 ^ 31)
    (hdetached : k.Detached) (hcurrent : ∀ id t, k.Has id t → k.idOf key = some id)
    (hheld : ∀ id, k.idOf key = some id → ∃ t, k.Has id t ∧ t.length = maxNode) :
    ∃ id k', SecKeyShm.new key maxNode k = ok (some id, k') ∧ k'.Detached ∧ k'.idOf key = some id ∧
      k'.Has id (List.replicate maxNode .empty) ∧ (∀ id' t, k'.Has id' t → id' = id) ∧
      ∀ id', k.idOf key = some id' → id' = id := by
  cases hid : k.idOf key with
  | some id =>
      obtain ⟨t, hcontent, hlen⟩ := hheld id hid
      have hget : k.shmget NodeSHMInfo.empty 160 key (160 * maxNode) true false = (some id, k) :=
        Kernel.shmget_open hkey hid hcontent rfl (by rw [hlen])
      obtain ⟨k₁, hat, -, -, hnew⟩ := new_eq hpos hsize hget hcontent hlen
      rw [Kernel.shmdt_write_shmat hat] at hnew
      refine ⟨id, k.write id (List.replicate maxNode .empty), hnew, hdetached.write _ _, hid,
        hcontent.write _, ?_, fun id' hsame => (Option.some.inj hsame).symm⟩
      -- the segment of the key was the only one
      intro id' t' hthere
      obtain ⟨old, hold⟩ := Kernel.exists_has_of_write hthere
      exact Option.some.inj ((hcurrent id' old hold).symm.trans hid)
  | none =>
      obtain ⟨id, k₁, hget, hid₁, hcontent⟩ := shmget_create hkey hpos hsize hid
      have hdetached₁ : k₁.Detached := by
        have hkept := hdetached.shmget NodeSHMInfo.empty 160 key (160 * maxNode) true false
        rwa [hget] at hkept
      obtain ⟨k₂, hat, -, -, hnew⟩ := new_eq hpos hsize hget hcontent List.length_replicate
      rw [Kernel.shmdt_write_shmat hat] at hnew
      refine ⟨id, k₁.write id (List.replicate maxNode .empty), hnew, hdetached₁.write _ _, hid₁,
        hcontent.write _, ?_, ?_⟩
      · -- there was none before
        intro id' t' hthere
        obtain ⟨old, hold⟩ := Kernel.exists_has_of_write hthere
        rcases Kernel.has_of_shmget_create hkey hid hget hold with hsame | hbefore
        · exact hsame
        · have hsame := hcurrent id' old hbefore
          rw [hid] at hsame
          cases hsame
      · intro id' hsame
        cases hsame

theorem mapShm_eq_none (hdetached : k.Detached)
    (hgone : ∀ id t, m_shmID = some id → ¬k.Has id t) : mapShm m_shmID k = none := by
  cases m_shmID with
  | none => rfl
  | some id => exact hdetached.shmat_eq_none_iff.mpr fun t => hgone id t rfl

theorem writeShared_of_gone (hgone : mapShm m_shmID k = none) (info : NodeSHMInfo) :
    writeShared maxNode m_shmID info k = ok (-1, k) := by
  simp only [writeShared, hgone, shmWrite, ok_bind]

theorem readShared_of_gone (hgone : mapShm m_shmID k = none) (clientID serverID : Bytes)
    (out : NodeSHMInfo) : readShared maxNode m_shmID clientID serverID out k = ok ((-1, out), k) := by
  simp only [readShared, hgone, shmRead, ok_bind]

/-- What `shmWrite` leaves is written to the segment. -/
theorem writeShared_of_has {ret : ℤ} {t' : List NodeSHMInfo} (hcontent : k.Has id t)
    (hwrite : shmWrite maxNode (some t) info = ok (ret, some t')) :
    writeShared maxNode (some id) info k = ok (ret, k.write id t') := by
  obtain ⟨k₁, hat, -, -⟩ := hcontent.shmat
  simp only [writeShared, mapShm, Option.bind_some, hat, hwrite, ok_bind, unmapShm,
    Kernel.shmdt_write_shmat hat]

end Segments

end SecKeyShm

/-- `shmKey` of `ClientInfo`. -/
def ClientInfo.shmKey : Member := ⟨.int, 64, 4⟩

/-- A client program. -/
structure Program where
  mInfo : ClientInfo
  /-- `m_shmID` of its `m_shm`. -/
  mShmID : Option ℕ
  running : Bool
  /-- A call of `secKeyAgree` has returned 0. -/
  agreed : Bool

/-- The program runs, and has agreed on a key. -/
def Program.Keyed (p : Program) : Prop :=
  p.running = true ∧ p.agreed = true

/-- The shared memory of a host with its client programs. -/
structure Host where
  kernel : Kernel ℤ NodeSHMInfo
  programs : List Program
  /-- The records of all calls that have returned 0, latest first. -/
  records : List NodeSHMInfo

namespace Host

open NodeSHMInfo

inductive Event where
  | start (mInfo : ClientInfo)
  /-- Steps 8 to 10 of `secKeyAgree`. -/
  | agree (i : ℕ) (seckeyid : ℤ) (seckey : Bytes) (memory : NodeSHMInfo)
  | quit (i : ℕ)
  | kill (i : ℕ)

/-- All programs have one key, which is not `IPC_PRIVATE`, and as many nodes, whose bytes an `int`
can count; what they agree on fits into a record. -/
def Event.Admissible (key : ℤ) (maxNode : ℕ) : Event → Prop
  | .start mInfo => mInfo.Valid ∧ mInfo.nodes = maxNode ∧ 160 * maxNode < 2 ^ 31 ∧
      mInfo.int ClientInfo.shmKey.off = key ∧ key ≠ 0
  | .agree _ _ seckey _ => ∃ text, seckey = text ++ [0] ∧ 0 ∉ text ∧ text.length < 128
  | .quit _ => True
  | .kill _ => True

/-- No program was started. -/
def boot : Host :=
  ⟨.boot, [], []⟩

section Steps

variable (s : Host)

/-- Take the program with number `i`, if it runs. -/
def getProgram (i : ℕ) : Outcome Program :=
  match s.programs[i]? with
  | none => disabled
  | some p => if p.running then ok p else disabled

/-- `ClientOperation(ClientInfo*)`. -/
def start (mInfo : ClientInfo) : Outcome Host := do
  let (mShmID, kernel) ← SecKeyShm.new (mInfo.int ClientInfo.shmKey.off) mInfo.nodes s.kernel
  ok { s with kernel, programs := s.programs ++ [⟨mInfo, mShmID, true, false⟩] }

def agree (i : ℕ) (seckeyid : ℤ) (seckey : Bytes) (memory : NodeSHMInfo) : Outcome Host := do
  let p ← s.getProgram i
  let info ← ClientOperation.keyRecord p.mInfo seckeyid seckey memory
  let (_, kernel) ← SecKeyShm.writeShared p.mInfo.nodes p.mShmID info s.kernel
  ok ⟨kernel, s.programs.set i { p with agreed := true }, info :: s.records⟩

/-- `~ClientOperation`. -/
def quit (i : ℕ) : Outcome Host := do
  let p ← s.getProgram i
  ok { s with
    kernel := ShareMemory.delShm p.mShmID s.kernel
    programs := s.programs.set i { p with running := false } }

def kill (i : ℕ) : Outcome Host := do
  let p ← s.getProgram i
  ok { s with programs := s.programs.set i { p with running := false } }

def step : Event → Outcome Host
  | .start mInfo => s.start mInfo
  | .agree i seckeyid seckey memory => s.agree i seckeyid seckey memory
  | .quit i => s.quit i
  | .kill i => s.kill i

/-! ## What is to hold -/

/-- The program reads the latest record under its ids. -/
def HasKey (p : Program) : Prop :=
  ∃ info, SlotTable.latest ids s.records p.mInfo.ids = some info ∧
    ∀ out, ∃ k, SecKeyShm.readShared p.mInfo.nodes p.mShmID (p.mInfo.ptr ClientInfo.clinetID.off)
      (p.mInfo.ptr ClientInfo.serverID.off) out s.kernel = ok ((0, info), k)

/-- Every program that runs and has agreed on a key finds it, or a later one under its ids. -/
def Keeps : Prop :=
  ∀ p ∈ s.programs, p.Keyed → s.HasKey p

/-- The step is defined, and keeps the keys. -/
def Behaves (e : Event) : Prop :=
  (∀ kind, s.step e ≠ fault kind) ∧ ∀ s', s.step e = ok s' → s'.Keeps

/-- A program that writes finds its segment, with its own node or a free one in it. -/
def HasRoom (p : Program) : Prop :=
  ∃ id t, p.mShmID = some id ∧ s.kernel.Has id t ∧ ∃ x ∈ t, x.ids = p.mInfo.ids ∨ x = .empty

/-- The step takes no key away, and loses none. -/
def Calm : Event → Prop
  | .start _ => ∀ p ∈ s.programs, ¬p.Keyed
  | .agree i _ _ _ => ∀ p, s.programs[i]? = some p → p.running = true → s.HasRoom p
  | .quit i => ∀ p, s.programs[i]? = some p → p.running = true →
      ∀ j q, j ≠ i → s.programs[j]? = some q → q.Keyed → q.mShmID ≠ p.mShmID
  | .kill _ => True

end Steps

/-! ## The segment that the programs share -/

variable {key : ℤ} {maxNode : ℕ} {s s' : Host} {p q : Program} {i id : ℕ}
  {t written : List NodeSHMInfo}

theorem getProgram_eq_ok : s.getProgram i = ok p ↔ s.programs[i]? = some p ∧ p.running = true := by
  unfold getProgram
  cases s.programs[i]? with
  | none => simp
  | some q =>
      cases hq : q.running with
      | true =>
          simp only [hq, reduceIte, ok.injEq, Option.some.injEq]
          exact ⟨fun hpq => ⟨hpq, hpq ▸ hq⟩, And.left⟩
      | false =>
          simp only [hq, Bool.false_eq_true, reduceIte, reduceCtorEq, Option.some.injEq, false_iff]
          rintro ⟨rfl, hrun⟩
          rw [hq] at hrun
          cases hrun

theorem getProgram_cases (s : Host) (i : ℕ) : s.getProgram i = disabled ∨
    ∃ p, s.getProgram i = ok p ∧ s.programs[i]? = some p ∧ p.running = true := by
  cases h : s.getProgram i with
  | ok p => exact Or.inr ⟨p, rfl, getProgram_eq_ok.mp h⟩
  | err code =>
      left
      unfold getProgram at h
      split at h
      · exact h.symm
      · split at h
        · cases h
        · exact h.symm
  | fault kind =>
      unfold getProgram at h
      split at h
      · cases h
      · split at h
        · cases h
        · cases h

/-- The table holds the records that the programs look for. -/
def Reflects (s : Host) (maxNode : ℕ) (t : List NodeSHMInfo) : Prop :=
  ∃ written, SecKeyShm.Holding maxNode written t ∧ ∀ p ∈ s.programs, p.Keyed →
    SlotTable.latest ids written p.mInfo.ids = SlotTable.latest ids s.records p.mInfo.ids

/-- The only segment is the one of the key, and all programs that have agreed on a key use it. -/
structure Inv (key : ℤ) (maxNode : ℕ) (s : Host) : Prop where
  detached : s.kernel.Detached
  current : ∀ id t, s.kernel.Has id t → s.kernel.idOf key = some id
  held : ∀ id, s.kernel.idOf key = some id → ∃ t, s.kernel.Has id t ∧ s.Reflects maxNode t
  configured : ∀ p ∈ s.programs, p.mInfo.Valid ∧ p.mInfo.nodes = maxNode
  keyed : ∀ p ∈ s.programs, p.Keyed → ∃ id, p.mShmID = some id ∧ s.kernel.idOf key = some id ∧
    ∃ info, SlotTable.latest ids s.records p.mInfo.ids = some info

theorem inv_boot (key : ℤ) (maxNode : ℕ) : Inv key maxNode boot where
  detached := by simp [boot, Kernel.boot, Kernel.Detached]
  current := by
    intro id t hthere
    obtain ⟨rest, nattch, hseg⟩ := hthere
    simp [boot, Kernel.boot] at hseg
  held := by
    intro id hid
    cases hid
  configured := by simp [boot]
  keyed := by simp [boot]

/-- The segment of a program is the one of the key. -/
theorem Inv.reflects (h : Inv key maxNode s) (hthere : s.kernel.Has id t) : s.Reflects maxNode t := by
  obtain ⟨t', hthere', hreflects⟩ := h.held id (h.current id t hthere)
  rwa [hthere.unique hthere']

theorem read_eq (hvalid : p.mInfo.Valid) (hnodes : p.mInfo.nodes = maxNode)
    (hid : p.mShmID = some id) {k : Kernel ℤ NodeSHMInfo} (hthere : k.Has id t)
    (hholding : SecKeyShm.Holding maxNode written t) (out : NodeSHMInfo) :
    ∃ k', SecKeyShm.readShared p.mInfo.nodes p.mShmID (p.mInfo.ptr ClientInfo.clinetID.off)
      (p.mInfo.ptr ClientInfo.serverID.off) out k =
        ok (SecKeyShm.readResult out (SlotTable.latest ids written p.mInfo.ids), k') := by
  obtain ⟨k', hread, -⟩ := SecKeyShm.readShared_eq out hthere hholding
    (zero_mem_ptr hvalid.clinetID) (zero_mem_ptr hvalid.serverID) hvalid.ids_ne
  rw [hid, hnodes, hread]
  exact ⟨k', rfl⟩

theorem Inv.keeps (h : Inv key maxNode s) : s.Keeps := by
  intro p hp hkeyed
  obtain ⟨id, hid, hidOf, info, hlatest⟩ := h.keyed p hp hkeyed
  obtain ⟨t, hthere, written, hholding, hsame⟩ := h.held id hidOf
  obtain ⟨hvalid, hnodes⟩ := h.configured p hp
  refine ⟨info, hlatest, fun out => ?_⟩
  obtain ⟨k', hread⟩ := read_eq hvalid hnodes hid hthere hholding out
  rw [hsame p hp hkeyed, hlatest] at hread
  exact ⟨k', hread⟩

theorem not_hasKey {k : Kernel ℤ NodeSHMInfo} {out : NodeSHMInfo}
    (hread : SecKeyShm.readShared p.mInfo.nodes p.mShmID (p.mInfo.ptr ClientInfo.clinetID.off)
      (p.mInfo.ptr ClientInfo.serverID.off) out s.kernel = ok ((-1, out), k)) : ¬s.HasKey p := by
  intro hkey
  obtain ⟨info, -, hfound⟩ := hkey
  obtain ⟨k', hread'⟩ := hfound out
  rw [hread] at hread'
  have hret : (-1 : ℤ) = 0 := congrArg (fun r => r.1.1) (ok.inj hread')
  norm_num at hret

/-! ## A program starts -/

section Start

variable {mInfo : ClientInfo} (h : Inv key maxNode s)
  (he : (Event.start mInfo).Admissible key maxNode)
include h he

theorem Inv.start_cases : ∃ id k, s.step (.start mInfo) =
      ok { s with kernel := k, programs := s.programs ++ [⟨mInfo, some id, true, false⟩] } ∧
    k.Detached ∧ k.idOf key = some id ∧ k.Has id (List.replicate maxNode .empty) ∧
    (∀ id' t, k.Has id' t → id' = id) ∧ ∀ id', s.kernel.idOf key = some id' → id' = id := by
  obtain ⟨hvalid, hnodes, hsize, hkey, hne⟩ := he
  have hpos : 0 < maxNode := by
    have hmaxNode := hvalid.maxNode_pos
    rw [← hnodes, ClientInfo.nodes]
    omega
  have hheld : ∀ id, s.kernel.idOf key = some id → ∃ t, s.kernel.Has id t ∧ t.length = maxNode := by
    intro id hid
    obtain ⟨t, hthere, written, hholding, -⟩ := h.held id hid
    exact ⟨t, hthere, hholding.length_eq⟩
  obtain ⟨id, k, hget, hrest⟩ := SecKeyShm.exists_new hne hpos hsize h.detached h.current hheld
  refine ⟨id, k, ?_, hrest⟩
  simp only [step, start, hkey, hnodes, hget, ok_bind]

theorem Inv.start (hcalm : s.Calm (.start mInfo)) (hstep : s.step (.start mInfo) = ok s') :
    Inv key maxNode s' := by
  obtain ⟨id, k, hstart, hdetached, hid, hthere, honly, -⟩ := h.start_cases he
  obtain rfl := ok.inj (hstep.symm.trans hstart)
  have hnone : ∀ p ∈ s.programs ++ [⟨mInfo, some id, true, false⟩], ¬p.Keyed :=
    forall_mem_concat hcalm fun hkeyed => Bool.false_ne_true hkeyed.2
  refine ⟨hdetached, fun id' t' hthere' => ?_, fun id' hid' => ?_, ?_, fun p hp hkeyed => ?_⟩
  · rw [honly id' t' hthere']
    exact hid
  · obtain rfl := Option.some.inj (hid.symm.trans hid')
    exact ⟨_, hthere, [], SecKeyShm.holding_replicate maxNode,
      fun p hp hkeyed => absurd hkeyed (hnone p hp)⟩
  · exact forall_mem_concat h.configured ⟨he.1, he.2.1⟩
  · exact absurd hkeyed (hnone p hp)

/-- A program that starts takes the key of every other one. -/
theorem Inv.not_keeps_start (hp : p ∈ s.programs) (hkeyed : p.Keyed)
    (hstep : s.step (.start mInfo) = ok s') : ¬s'.Keeps := by
  intro hkeeps
  obtain ⟨id, k, hstart, -, -, hthere, -, hsame⟩ := h.start_cases he
  obtain rfl := ok.inj (hstep.symm.trans hstart)
  obtain ⟨id', hid', hidOf, -⟩ := h.keyed p hp hkeyed
  obtain ⟨hvalid, hnodes⟩ := h.configured p hp
  rw [hsame id' hidOf] at hid'
  obtain ⟨k', hread⟩ := read_eq hvalid hnodes hid' hthere (SecKeyShm.holding_replicate maxNode) .empty
  exact not_hasKey hread (hkeeps p (List.mem_append_left _ hp) hkeyed)

end Start

/-! ## A program agrees on a key -/

section Agree

variable {seckeyid : ℤ} {seckey : Bytes} {memory : NodeSHMInfo} (h : Inv key maxNode s)
  (he : (Event.agree i seckeyid seckey memory).Admissible key maxNode)
  (hi : s.programs[i]? = some p) (hrun : p.running = true)
include h he hi hrun

theorem Inv.agree_cases : ∃ info, p.mInfo.Owns info ∧
    ((∃ id t t', p.mShmID = some id ∧ s.kernel.Has id t ∧
        SlotTable.put ids .empty t info = some t' ∧
        s.step (.agree i seckeyid seckey memory) =
          ok ⟨s.kernel.write id t', s.programs.set i { p with agreed := true }, info :: s.records⟩) ∨
      ¬s.HasRoom p ∧
        s.step (.agree i seckeyid seckey memory) =
          ok ⟨s.kernel, s.programs.set i { p with agreed := true }, info :: s.records⟩) := by
  obtain ⟨text, rfl, hzero, hlen⟩ := he
  obtain ⟨hvalid, hnodes⟩ := h.configured p (List.mem_of_getElem? hi)
  obtain ⟨info, hrecord, hinfo⟩ := ClientOperation.keyRecord_eq hvalid.toIdsTerminated hzero hlen
    seckeyid memory
  have howns : p.mInfo.Owns info := ⟨hinfo.terminated, hinfo.ids⟩
  have hstep : s.step (.agree i seckeyid (text ++ [0]) memory) = (do
      let (_, kernel) ← SecKeyShm.writeShared p.mInfo.nodes p.mShmID info s.kernel
      ok ⟨kernel, s.programs.set i { p with agreed := true }, info :: s.records⟩) := by
    simp only [step, agree, getProgram_eq_ok.mpr ⟨hi, hrun⟩, hrecord, ok_bind]
  refine ⟨info, howns, ?_⟩
  -- the segment of the program is there, or was removed by another one
  by_cases hthere : ∃ id t, p.mShmID = some id ∧ s.kernel.Has id t
  · obtain ⟨id, t, hid, hthere⟩ := hthere
    obtain ⟨written, hholding, -⟩ := h.reflects hthere
    rcases hholding.shmWrite_cases (hvalid.storable howns) with ⟨t', hput, hwrite⟩ | ⟨hput, hwrite⟩
    · refine Or.inl ⟨id, t, t', hid, hthere, hput, ?_⟩
      rw [hstep, hid, hnodes, SecKeyShm.writeShared_of_has hthere hwrite]
      rfl
    · refine Or.inr ⟨?_, ?_⟩
      · rintro ⟨id', t', hid', hthere', x, hx, hslot⟩
        obtain rfl := Option.some.inj (hid.symm.trans hid')
        obtain rfl := hthere.unique hthere'
        obtain ⟨hother, hused⟩ := SlotTable.put_eq_none.mp hput
        -- a node with room would have been found
        rcases hslot with hids | hempty
        · exact hother x hx (hids.trans howns.2.symm)
        · exact hused x hx hempty
      · rw [hstep, hid, hnodes, SecKeyShm.writeShared_of_has hthere hwrite, hthere.write_self]
        rfl
  · have hgone : ShareMemory.mapShm p.mShmID s.kernel = none :=
      SecKeyShm.mapShm_eq_none h.detached fun id t hid hhas => hthere ⟨id, t, hid, hhas⟩
    refine Or.inr ⟨?_, ?_⟩
    · rintro ⟨id, t, hid, hhas, -⟩
      exact hthere ⟨id, t, hid, hhas⟩
    · rw [hstep, SecKeyShm.writeShared_of_gone hgone]
      rfl

theorem Inv.agree (hroom : s.HasRoom p) (hstep : s.step (.agree i seckeyid seckey memory) = ok s') :
    Inv key maxNode s' := by
  obtain ⟨info, howns, hcases⟩ := h.agree_cases he hi hrun
  rcases hcases with ⟨id, t, t', hid, hthere, hput, hagree⟩ | ⟨hnoRoom, -⟩
  · obtain rfl := ok.inj (hstep.symm.trans hagree)
    obtain ⟨written, hholding, hsame⟩ := h.reflects hthere
    have hp := h.configured p (List.mem_of_getElem? hi)
    have hidOf := h.current id t hthere
    -- the new record is the latest one for all programs with its ids, on both sides
    have hlatest : ∀ q ∈ s.programs.set i { p with agreed := true }, q.Keyed →
        SlotTable.latest ids (info :: written) q.mInfo.ids =
          SlotTable.latest ids (info :: s.records) q.mInfo.ids ∧
        (∃ id, q.mShmID = some id ∧ s.kernel.idOf key = some id ∧
          ∃ info', SlotTable.latest ids (info :: s.records) q.mInfo.ids = some info') := by
      intro q hq hkeyed
      rw [SlotTable.latest_cons, SlotTable.latest_cons]
      rcases List.mem_or_eq_of_mem_set hq with hq | rfl
      · obtain ⟨id', hid', hidOf', info', hinfo'⟩ := h.keyed q hq hkeyed
        rw [hsame q hq hkeyed]
        refine ⟨rfl, id', hid', hidOf', ?_⟩
        by_cases hids : info.ids = q.mInfo.ids
        · exact ⟨info, if_pos hids⟩
        · exact ⟨info', by rw [if_neg hids, hinfo']⟩
      · rw [if_pos howns.2, if_pos howns.2]
        exact ⟨rfl, id, hid, hidOf, info, rfl⟩
    refine ⟨h.detached.write id t', fun id' old hhas => ?_, fun id' hid' => ?_, ?_, fun q hq hkeyed => ?_⟩
    · obtain ⟨old', hold⟩ := Kernel.exists_has_of_write hhas
      exact h.current id' old' hold
    · obtain rfl := Option.some.inj (hidOf.symm.trans hid')
      exact ⟨t', hthere.write t', info :: written, hholding.put (hp.1.storable howns) hput,
        fun q hq hkeyed => (hlatest q hq hkeyed).1⟩
    · refine forall_mem_set h.configured ?_ i
      exact hp
    · exact (hlatest q hq hkeyed).2
  · exact absurd hroom hnoRoom

/-- A program that agrees on a key without room for it does not find it, though `secKeyAgree` has
returned 0. -/
theorem Inv.not_keeps_agree (hroom : ¬s.HasRoom p)
    (hstep : s.step (.agree i seckeyid seckey memory) = ok s') : ¬s'.Keeps := by
  intro hkeeps
  obtain ⟨info, howns, hcases⟩ := h.agree_cases he hi hrun
  rcases hcases with ⟨id, t, t', hid, hthere, hput, -⟩ | ⟨-, hagree⟩
  · refine hroom ⟨id, t, hid, hthere, ?_⟩
    by_contra hnone
    push Not at hnone
    have hfull : SlotTable.put ids .empty t info = none :=
      SlotTable.put_eq_none.mpr ⟨fun x hx => howns.2 ▸ (hnone x hx).1, fun x hx => (hnone x hx).2⟩
    rw [hput] at hfull
    cases hfull
  · obtain rfl := ok.inj (hstep.symm.trans hagree)
    have hlt : i < s.programs.length := (List.getElem?_eq_some_iff.mp hi).1
    have hkey := hkeeps { p with agreed := true } (List.mem_set hlt _) ⟨hrun, rfl⟩
    by_cases hgone : ∃ id t, p.mShmID = some id ∧ s.kernel.Has id t
    · obtain ⟨id, t, hid, hthere⟩ := hgone
      obtain ⟨written, hholding, -⟩ := h.reflects hthere
      obtain ⟨hvalid, hnodes⟩ := h.configured p (List.mem_of_getElem? hi)
      -- a table without a node for the ids was never written to with them
      have hnever : SlotTable.latest ids written p.mInfo.ids = none := by
        rw [← hholding.records.find?_eq (SecKeyShm.ids_empty ▸ hvalid.ids_ne), List.find?_eq_none]
        intro x hx hids
        exact hroom ⟨id, t, hid, hthere, x, hx, Or.inl (by simpa using hids)⟩
      obtain ⟨k, hread⟩ := read_eq hvalid hnodes hid hthere hholding .empty
      rw [hnever] at hread
      exact absurd hkey (not_hasKey hread)
    · have hnone : ShareMemory.mapShm p.mShmID s.kernel = none :=
        SecKeyShm.mapShm_eq_none h.detached fun id t hid hthere => hgone ⟨id, t, hid, hthere⟩
      exact absurd hkey (not_hasKey (SecKeyShm.readShared_of_gone hnone _ _ .empty))

end Agree

/-! ## A program stops -/

section Stop

variable (h : Inv key maxNode s) (hi : s.programs[i]? = some p) (hrun : p.running = true)

/-- What has a key behind a stop had it before, and is another program. -/
theorem exists_of_stopped (hi : s.programs[i]? = some p)
    (hq : q ∈ s.programs.set i { p with running := false }) (hkeyed : q.Keyed) :
    ∃ j, j ≠ i ∧ s.programs[j]? = some q := by
  obtain ⟨j, hj⟩ := List.mem_iff_getElem?.mp hq
  rw [getElem?_set_of_some hi] at hj
  by_cases hji : j = i
  · rw [if_pos hji] at hj
    obtain rfl := Option.some.inj hj
    exact absurd hkeyed.1 Bool.false_ne_true
  · rw [if_neg hji] at hj
    exact ⟨j, hji, hj⟩

include h hi

theorem Inv.stopped : Inv key maxNode { s with programs := s.programs.set i { p with running := false } } := by
  have hold : ∀ q ∈ s.programs.set i { p with running := false }, q.Keyed → q ∈ s.programs := by
    intro q hq hkeyed
    obtain ⟨j, -, hj⟩ := exists_of_stopped hi hq hkeyed
    exact List.mem_of_getElem? hj
  refine ⟨h.detached, h.current, fun id hid => ?_, ?_, fun q hq hkeyed => ?_⟩
  · obtain ⟨t, hthere, written, hholding, hsame⟩ := h.held id hid
    exact ⟨t, hthere, written, hholding, fun q hq hkeyed => hsame q (hold q hq hkeyed) hkeyed⟩
  · refine forall_mem_set h.configured ?_ i
    exact h.configured p (List.mem_of_getElem? hi)
  · exact h.keyed q (hold q hq hkeyed) hkeyed

theorem Inv.removed (hid : p.mShmID = some id)
    (hothers : ∀ j q, j ≠ i → s.programs[j]? = some q → q.Keyed → q.mShmID ≠ p.mShmID) :
    Inv key maxNode ⟨s.kernel.rmid id, s.programs.set i { p with running := false }, s.records⟩ := by
  have hstopped := h.stopped hi
  -- a program with a key keeps the segment that it uses
  have hkept : ∀ q ∈ s.programs.set i { p with running := false }, q.Keyed →
      q.mShmID ≠ some id := by
    intro q hq hkeyed
    obtain ⟨j, hji, hj⟩ := exists_of_stopped hi hq hkeyed
    rw [← hid]
    exact hothers j q hji hj hkeyed
  have hidOf : ∀ id', (s.kernel.rmid id).idOf key = some id' ↔
      id' ≠ id ∧ s.kernel.idOf key = some id' := by
    intro id'
    unfold Kernel.rmid
    dsimp only
    split
    · rename_i hcurrent
      rw [hcurrent]
      simp only [reduceCtorEq, Option.some.injEq, false_iff, not_and]
      exact fun hne hsame => hne hsame.symm
    · rename_i hcurrent
      refine ⟨fun hid' => ⟨?_, hid'⟩, And.right⟩
      rintro rfl
      exact hcurrent hid'
  refine ⟨h.detached.rmid id, fun id' t hthere => ?_, fun id' hid' => ?_, hstopped.configured,
    fun q hq hkeyed => ?_⟩
  · obtain ⟨hne, hbefore⟩ := Kernel.has_rmid_iff.mp hthere
    exact (hidOf id').mpr ⟨hne, h.current id' t hbefore⟩
  · obtain ⟨hne, hbefore⟩ := (hidOf id').mp hid'
    obtain ⟨t, hthere, hreflects⟩ := hstopped.held id' hbefore
    exact ⟨t, Kernel.has_rmid_iff.mpr ⟨hne, hthere⟩, hreflects⟩
  · obtain ⟨id', hid', hbefore, hlatest⟩ := hstopped.keyed q hq hkeyed
    refine ⟨id', hid', (hidOf id').mpr ⟨?_, hbefore⟩, hlatest⟩
    rintro rfl
    exact hkept q hq hkeyed hid'

include hrun

theorem Inv.quit (hcalm : s.Calm (.quit i)) (hstep : s.step (.quit i) = ok s') :
    Inv key maxNode s' := by
  simp only [step, Host.quit, getProgram_eq_ok.mpr ⟨hi, hrun⟩, ok_bind, ok.injEq] at hstep
  subst hstep
  rcases Option.eq_none_or_eq_some p.mShmID with hid | ⟨id, hid⟩
  · have hkernel : ShareMemory.delShm p.mShmID s.kernel = s.kernel := by rw [hid, ShareMemory.delShm]
    rw [hkernel]
    exact h.stopped hi
  · have hkernel : ShareMemory.delShm p.mShmID s.kernel = s.kernel.rmid id := by
      rw [hid, ShareMemory.delShm]
    rw [hkernel]
    exact h.removed hi hid (hcalm p hi hrun)

/-- A program that quits takes the key of every other one that uses its segment. -/
theorem Inv.not_keeps_quit {j : ℕ} (hj : s.programs[j]? = some q) (hji : j ≠ i) (hkeyed : q.Keyed)
    (hsame : q.mShmID = p.mShmID) (hstep : s.step (.quit i) = ok s') : ¬s'.Keeps := by
  intro hkeeps
  obtain ⟨id, hid, -⟩ := h.keyed q (List.mem_of_getElem? hj) hkeyed
  have hkernel : ShareMemory.delShm p.mShmID s.kernel = s.kernel.rmid id := by
    rw [← hsame, hid, ShareMemory.delShm]
  simp only [step, Host.quit, getProgram_eq_ok.mpr ⟨hi, hrun⟩, ok_bind, ok.injEq, hkernel] at hstep
  subst hstep
  have hq : q ∈ s.programs.set i { p with running := false } := by
    refine List.mem_of_getElem? (i := j) ?_
    rw [getElem?_set_of_some hi, if_neg hji, hj]
  have hgone : ShareMemory.mapShm q.mShmID (s.kernel.rmid id) = none := by
    refine SecKeyShm.mapShm_eq_none (h.detached.rmid id) fun id' t hid' hthere => ?_
    obtain rfl := Option.some.inj (hid.symm.trans hid')
    exact (Kernel.has_rmid_iff.mp hthere).1 rfl
  exact absurd (hkeeps q hq hkeyed) (not_hasKey (SecKeyShm.readShared_of_gone hgone _ _ .empty))

end Stop

/-! ## Runs -/

theorem Inv.step_ne_fault {e : Event} (h : Inv key maxNode s) (he : e.Admissible key maxNode)
    (kind : Fault) : s.step e ≠ fault kind := by
  intro hfault
  cases e with
  | start mInfo =>
      obtain ⟨id, k, hstart, -⟩ := h.start_cases he
      rw [hstart] at hfault
      cases hfault
  | agree i seckeyid seckey memory =>
      rcases getProgram_cases s i with hnone | ⟨p, hget, hi, hrun⟩
      · simp only [step, Host.agree, hnone, err_bind, reduceCtorEq] at hfault
      · obtain ⟨info, -, ⟨id, t, t', -, -, -, hagree⟩ | ⟨-, hagree⟩⟩ := h.agree_cases he hi hrun
        · rw [hagree] at hfault
          cases hfault
        · rw [hagree] at hfault
          cases hfault
  | quit i =>
      rcases getProgram_cases s i with hnone | ⟨p, hget, -⟩
      · simp only [step, Host.quit, hnone, err_bind, reduceCtorEq] at hfault
      · simp only [step, Host.quit, hget, ok_bind, reduceCtorEq] at hfault
  | kill i =>
      rcases getProgram_cases s i with hnone | ⟨p, hget, -⟩
      · simp only [step, Host.kill, hnone, err_bind, reduceCtorEq] at hfault
      · simp only [step, Host.kill, hget, ok_bind, reduceCtorEq] at hfault

theorem Inv.step {e : Event} (h : Inv key maxNode s) (he : e.Admissible key maxNode)
    (hcalm : s.Calm e) (hstep : s.step e = ok s') : Inv key maxNode s' := by
  cases e with
  | start mInfo => exact h.start he hcalm hstep
  | agree i seckeyid seckey memory =>
      obtain ⟨p, hget, -⟩ := bind_eq_ok.mp hstep
      obtain ⟨hi, hrun⟩ := getProgram_eq_ok.mp hget
      exact h.agree he hi hrun (hcalm p hi hrun) hstep
  | quit i =>
      obtain ⟨p, hget, -⟩ := bind_eq_ok.mp hstep
      obtain ⟨hi, hrun⟩ := getProgram_eq_ok.mp hget
      exact h.quit hi hrun hcalm hstep
  | kill i =>
      obtain ⟨p, hget, hstop⟩ := bind_eq_ok.mp hstep
      obtain ⟨hi, hrun⟩ := getProgram_eq_ok.mp hget
      obtain rfl := ok.inj hstop
      exact h.stopped hi

/-- A step that is not calm takes a key away, or loses one. -/
theorem Inv.not_behaves {e : Event} (h : Inv key maxNode s) (he : e.Admissible key maxNode)
    (hcalm : ¬s.Calm e) : ¬s.Behaves e := by
  intro hbehaves
  obtain ⟨-, hkeeps⟩ := hbehaves
  cases e with
  | start mInfo =>
      obtain ⟨id, k, hstep, -⟩ := h.start_cases he
      unfold Calm at hcalm
      push Not at hcalm
      obtain ⟨p, hp, hkeyed⟩ := hcalm
      exact h.not_keeps_start he hp hkeyed hstep (hkeeps _ hstep)
  | agree i seckeyid seckey memory =>
      unfold Calm at hcalm
      push Not at hcalm
      obtain ⟨p, hi, hrun, hroom⟩ := hcalm
      obtain ⟨info, -, ⟨id, t, t', -, -, -, hstep⟩ | ⟨-, hstep⟩⟩ := h.agree_cases he hi hrun
      · exact h.not_keeps_agree he hi hrun hroom hstep (hkeeps _ hstep)
      · exact h.not_keeps_agree he hi hrun hroom hstep (hkeeps _ hstep)
  | quit i =>
      unfold Calm at hcalm
      push Not at hcalm
      obtain ⟨p, hi, hrun, j, q, hji, hj, hkeyed, hsame⟩ := hcalm
      have hstep : s.step (.quit i) = ok { s with
          kernel := ShareMemory.delShm p.mShmID s.kernel
          programs := s.programs.set i { p with running := false } } := by
        simp only [Host.step, Host.quit, getProgram_eq_ok.mpr ⟨hi, hrun⟩, ok_bind]
      exact h.not_keeps_quit hi hrun hj hji hkeyed hsame hstep (hkeeps _ hstep)
  | kill i => exact hcalm trivial

/-- In every run every program keeps its key, exactly if every step is calm. -/
theorem keeps_iff (key : ℤ) (maxNode : ℕ) {es : List Event}
    (hes : ∀ e ∈ es, e.Admissible key maxNode) :
    EachStep step Behaves es boot ↔ EachStep step Calm es boot := by
  have hkeep : ∀ s e s', Inv key maxNode s → e.Admissible key maxNode → s.Calm e →
      s.step e = ok s' → Inv key maxNode s' := fun s e s' h he => h.step he
  refine eachStep_iff (Inv key maxNode) (fun s e h he => ?_) hkeep hes (inv_boot key maxNode)
  constructor
  · intro hbehaves
    by_contra hcalm
    exact h.not_behaves he hcalm hbehaves
  · intro hcalm
    exact ⟨h.step_ne_fault he, fun s' hstep => (h.step he hcalm hstep).keeps⟩

/-- A test whether a step is calm. -/
def isCalm (s : Host) : Event → Bool
  | .start _ => s.programs.all fun p => !(p.running && p.agreed)
  | .agree i _ _ _ =>
      match s.programs[i]? with
      | none => true
      | some p =>
          match p.mShmID with
          | none => false
          | some id =>
              match s.kernel.segments[id]? with
              | some ⟨t, _, _, false⟩ => t.any fun x => x.ids = p.mInfo.ids || x = .empty
              | _ => false
  | .quit i =>
      match s.programs[i]? with
      | none => true
      | some p => (s.programs.eraseIdx i).all fun q =>
          !(q.running && q.agreed) || q.mShmID != p.mShmID
  | .kill _ => true

theorem calm_of_isCalm (s : Host) (e : Event) (h : s.isCalm e = true) : s.Calm e := by
  cases e with
  | start mInfo =>
      intro p hp hkeyed
      have htest := List.all_eq_true.mp h p hp
      rw [hkeyed.1, hkeyed.2] at htest
      cases htest
  | agree i seckeyid seckey memory =>
      intro p hi hrun
      simp only [isCalm, hi] at h
      split at h
      · cases h
      · rename_i id hid
        split at h
        · rename_i t rest nattch hseg
          refine ⟨id, t, hid, ⟨rest, nattch, hseg⟩, ?_⟩
          simpa using h
        · cases h
  | quit i =>
      intro p hi hrun j q hji hj hkeyed
      simp only [isCalm, hi] at h
      have htest := List.all_eq_true.mp h q (List.mem_eraseIdx_iff_getElem?.mpr ⟨j, hji, hj⟩)
      rw [hkeyed.1, hkeyed.2] at htest
      simpa using htest
  | kill i => trivial

/-- The configuration of the client `1` with the key 100, and one node. -/
def hostInfo : ClientInfo :=
  ⟨0x31 :: List.replicate 11 0 ++ 0x32 :: List.replicate 47 0 ++ intBytes 1 ++ intBytes 100, by simp⟩

/-- Two programs share the table, and both agree on keys; one is killed, the other one quits, and a
third one starts behind them. -/
def together : List Event :=
  [.start hostInfo, .start hostInfo, .agree 0 100 [0x61, 0] (.zero 160),
    .agree 1 101 [0x62, 0] (.zero 160), .kill 0, .quit 1, .start hostInfo,
    .agree 2 100 [0x63, 0] (.zero 160)]

theorem keeps_together : EachStep step Behaves together boot := by
  have hinfo : (Event.start hostInfo).Admissible 100 1 :=
    ⟨⟨⟨by decide +kernel, by decide +kernel⟩, by decide +kernel, by decide +kernel⟩,
      by decide +kernel, by norm_num, by decide +kernel, by norm_num⟩
  refine (keeps_iff 100 1 ?_).mpr (EachStep.of_test calm_of_isCalm (by decide +kernel))
  intro e he
  simp only [together, List.mem_cons, List.not_mem_nil, or_false] at he
  rcases he with rfl | rfl | rfl | rfl | rfl | rfl | rfl | rfl
  · exact hinfo
  · exact hinfo
  · exact ⟨[0x61], rfl, by decide, by decide⟩
  · exact ⟨[0x62], rfl, by decide, by decide⟩
  · trivial
  · trivial
  · exact hinfo
  · exact ⟨[0x63], rfl, by decide, by decide⟩

end Host

end SafeTransmission
