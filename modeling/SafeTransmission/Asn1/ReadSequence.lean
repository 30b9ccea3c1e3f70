import SafeTransmission.Asn1.BaseASN1
import SafeTransmission.Library.LinkedList
import SafeTransmission.Library.Refinement
import SafeTransmission.Library.Runs

/-!
# The list that `DER_ItAsn1_ReadSequence` builds

`Linked.derItAsn1ReadSequence` is `DER_ItAsn1_ReadSequence` with its pointers: the
element loop creates a node in each round and links it behind the last one.  It refines
`derItAsn1ReadSequence`, where the list is a list (`readSequence_refines`).

One round is a step of its own, so that the rounds can be counted.
-/

namespace SafeTransmission

open Outcome

/-- The platforms of the build configurations. -/
inductive Platform where
  | x64
  | x86
  | arm
deriving DecidableEq, Repr

/-- The width of `unsigned long`. -/
def Platform.ulongBits : Platform → ℕ
  | x64 => 64
  | x86 => 32
  | arm => 32

theorem Platform.le_ulongBits (platform : Platform) : 32 ≤ platform.ulongBits := by
  cases platform <;> decide

namespace Linked

/-- The variables of the element loop, and the nodes it has created. -/
structure ElementLoop where
  pMidData : Bytes
  lTotalLength : ℤ
  firstTag : Bool
  pMidSequence : Option ℕ
  pMidNext2 : Option ℕ
  nodes : NodeHeap AnyBuf
deriving DecidableEq, Repr

namespace ElementLoop

/-- A node is created and linked.  Both pointers of a new node are null. -/
def linkNode (s : ElementLoop) (node : AnyBuf) : Outcome ElementLoop :=
  let (created, nodes) := s.nodes.alloc node
  if s.firstTag = true then
    ok { s with firstTag := false, pMidSequence := some created, pMidNext2 := some created,
                nodes := nodes }
  else do
    let nodes ← nodes.setPrev (some created) s.pMidNext2
    let nodes ← nodes.setNext s.pMidNext2 (some created)
    let last ← nodes.get s.pMidNext2
    let nodes ← nodes.setNext last.next none
    ok { s with pMidNext2 := last.next, nodes := nodes }

/-- One round of the loop. -/
def round (w : ℕ) (s : ElementLoop) : Outcome ElementLoop := do
  let node ← readElement w s.pMidData
  let s ← s.linkNode node
  ok { s with pMidData := s.pMidData.drop node.dataLen
              lTotalLength := toInt32 (s.lTotalLength - node.dataLen) }

/-- A round is a step, as long as the condition of the loop holds. -/
def step (w : ℕ) (s : ElementLoop) (_ : Unit) : Outcome ElementLoop := do
  require (s.lTotalLength > 0)
  s.round w

/-- The loop.  `fuel` bounds the number of rounds. -/
def loop (w : ℕ) : ℕ → ElementLoop → Outcome ElementLoop
  | fuel, s =>
      if s.lTotalLength > 0 then
        match fuel with
        | 0 => fault .diverges
        | fuel + 1 => do
            let s ← s.round w
            loop w fuel s
      else
        ok s

/-- What stands before the loop. -/
def start (w : ℕ) (pDerSequence : AnyBuf) : Outcome ElementLoop := do
  let tag ← derItAsn1LowGetTagInfo w pDerSequence.pData
  if tag.value % 256 ≠ DerTag.sequence then
    err DerErrType.invalidTag
  else do
    let len ← derItAsn1LowGetLengthInfo w tag.rest
    if pDerSequence.dataLen ≠ (tag.size + len.size + len.value) % 2 ^ w then
      err DerErrType.lengthNotEqual
    else
      ok ⟨len.rest, toInt32 len.value, true, none, none, []⟩

end ElementLoop

/-- `DER_ItAsn1_ReadSequence`: `*ppSequence`, and the nodes in memory. -/
def derItAsn1ReadSequence (w : ℕ) (pDerSequence : AnyBuf) :
    Outcome (Option ℕ × NodeHeap AnyBuf) := do
  let s ← ElementLoop.start w pDerSequence
  let s ← s.loop w s.lTotalLength.toNat
  if s.lTotalLength ≠ 0 then err DerErrType.lengthErr else ok (s.pMidSequence, s.nodes)

/-! ## The list in memory -/

namespace ElementLoop

/-- The nodes created so far are a list from `pMidSequence` to `pMidNext2`. -/
structure Holds (s : ElementLoop) (vs : List AnyBuf) : Prop where
  isList : s.nodes.IsList s.pMidSequence s.pMidNext2 vs
  firstTag : s.firstTag = true ↔ vs = []
  length : s.nodes.length = vs.length

variable {w : ℕ} {s s' : ElementLoop} {vs : List AnyBuf} {node : AnyBuf}

theorem Holds.linkNode (h : s.Holds vs) (node : AnyBuf) :
    ∃ s', s.linkNode node = ok s' ∧ s'.Holds (vs ++ [node]) ∧ s'.pMidData = s.pMidData ∧
      s'.lTotalLength = s.lTotalLength := by
  by_cases hfirst : s.firstTag = true
  · obtain rfl := h.firstTag.mp hfirst
    refine ⟨{ s with firstTag := false, pMidSequence := some (s.nodes.alloc node).1,
                     pMidNext2 := some (s.nodes.alloc node).1, nodes := (s.nodes.alloc node).2 },
      if_pos hfirst, ⟨?_, ?_, ?_⟩, rfl, rfl⟩
    · exact NodeHeap.isList_alloc node
    · simp
    · simp [NodeHeap.alloc, h.length]
  · have hne : vs ≠ [] := fun hnil => hfirst (h.firstTag.mpr hnil)
    obtain ⟨h₁, h₂, hprev, hnext, ⟨last, hget, hlast⟩, hend, hlen, hlist⟩ :=
      h.isList.append hne node
    refine ⟨{ s with pMidNext2 := last.next, nodes := h₂ }, ?_, ⟨?_, ?_, ?_⟩, rfl, rfl⟩
    · refine (if_neg hfirst).trans ?_
      change ((s.nodes.alloc node).2.setPrev (some (s.nodes.alloc node).1) s.pMidNext2 >>= _) = _
      rw [hprev, ok_bind]
      change (h₁.setNext s.pMidNext2 (some (s.nodes.alloc node).1) >>= _) = _
      rw [hnext, ok_bind, hget, ok_bind, hlast, hend, ok_bind]
    · rw [hlast]
      exact hlist
    · simp [hfirst]
    · simp [hlen, h.length]

/-- A round is a round of `readElements`, with the new node at the end of the list. -/
theorem Holds.round (h : s.Holds vs) (w : ℕ) :
    Refines (fun s' node => s'.Holds (vs ++ [node]) ∧ s'.pMidData = s.pMidData.drop node.dataLen ∧
        s'.lTotalLength = toInt32 (s.lTotalLength - node.dataLen))
      (s.round w) (readElement w s.pMidData) := by
  rw [ElementLoop.round]
  cases readElement w s.pMidData with
  | ok node =>
      obtain ⟨s', hlink, hholds, hdata, htotal⟩ := h.linkNode node
      rw [ok_bind, hlink, ok_bind]
      exact .ok ⟨⟨hholds.isList, hholds.firstTag, hholds.length⟩, by rw [hdata], by rw [htotal]⟩
  | err code => exact .err code
  | fault kind => exact .fault kind

/-- The loop builds the list that `readElements` returns. -/
theorem Holds.loop (h : s.Holds vs) (w fuel : ℕ) :
    Refines (fun s' result => s'.Holds (vs ++ result.1) ∧ s'.lTotalLength = result.2)
      (s.loop w fuel) (readElements w fuel s.pMidData s.lTotalLength) := by
  induction fuel generalizing s vs with
  | zero =>
      rw [ElementLoop.loop, readElements]
      split
      · exact .fault _
      · exact .ok ⟨by rwa [List.append_nil], rfl⟩
  | succ fuel ih =>
      rw [ElementLoop.loop, readElements]
      split
      · refine (h.round w).bind ?_
        rintro s' node ⟨hholds, hdata, htotal⟩
        have hrest := ih hholds
        rw [hdata, htotal] at hrest
        generalize s'.loop w fuel = x at hrest
        generalize readElements w fuel (s.pMidData.drop node.dataLen)
          (toInt32 (s.lTotalLength - node.dataLen)) = y at hrest
        cases hrest with
        | ok hresult =>
            rw [List.append_assoc] at hresult
            exact .ok hresult
        | err code => exact .err code
        | fault kind => exact .fault kind
      · exact .ok ⟨by rwa [List.append_nil], rfl⟩

end ElementLoop

/-- `DER_ItAsn1_ReadSequence` returns a pointer to a doubly linked list of the nodes. -/
theorem readSequence_refines (w : ℕ) (pDerSequence : AnyBuf) :
    Refines (fun result nodes => (∃ last, result.2.IsList result.1 last nodes) ∧
        result.2.length = nodes.length)
      (derItAsn1ReadSequence w pDerSequence)
      (SafeTransmission.derItAsn1ReadSequence w pDerSequence) := by
  rw [derItAsn1ReadSequence, SafeTransmission.derItAsn1ReadSequence, ElementLoop.start]
  cases derItAsn1LowGetTagInfo w pDerSequence.pData with
  | err code => exact .err code
  | fault kind => exact .fault kind
  | ok tag =>
      rw [ok_bind, ok_bind]
      split
      · exact .err _
      · cases derItAsn1LowGetLengthInfo w tag.rest with
        | err code => exact .err code
        | fault kind => exact .fault kind
        | ok len =>
            rw [ok_bind, ok_bind]
            split
            · exact .err _
            · rw [ok_bind]
              generalize toInt32 len.value = lTotalLength
              have hstart : ElementLoop.Holds ⟨len.rest, lTotalLength, true, none, none, []⟩ [] :=
                ⟨NodeHeap.isList_nil, by simp, rfl⟩
              refine (hstart.loop w lTotalLength.toNat).bind ?_
              rintro s' ⟨nodes, total⟩ ⟨hholds, rfl⟩
              rw [List.nil_append] at hholds
              dsimp only
              split
              · exact .err _
              · exact .ok ⟨⟨_, hholds.isList⟩, hholds.length⟩

end Linked

end SafeTransmission
