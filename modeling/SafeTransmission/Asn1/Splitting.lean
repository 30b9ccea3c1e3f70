import SafeTransmission.Asn1.Termination

/-!
# What the nodes of a sequence hold

If `DER_ItAsn1_ReadSequence` returns zero, its nodes put together are the contents of the
sequence.  A node need not be the element that its own head announces: a sum of sizes that
does not fit into `unsigned long` makes it shorter, and behind the length octet `0x80` the
length is read from an octet that is not counted.  If that octet is zero, it stands in the
next node (`splitsContents_iff`).
-/

namespace SafeTransmission

open Outcome

/-- The size of the node is the one that its own head announces. -/
def OwnHead (w : ℕ) (node : AnyBuf) : Prop :=
  ∃ e : ElementHead, e.Begins w node.pData ∧ node.dataLen = e.size

/-- The size of the element is not cut, and all octets of its head are inside it. -/
def ElementHead.Whole (w : ℕ) (e : ElementHead) : Prop :=
  e.size < 2 ^ w ∧ (e.lenOctets = [0x80] → 0 < e.length)

section Elements

variable {w : ℕ} {p : Bytes} {total left : ℤ} {e : ElementHead}

theorem ElementHead.octets_le_size_iff :
    e.octets ≤ e.size ↔ (e.lenOctets = [0x80] → 0 < e.length) := by
  rw [ElementHead.octets, ElementHead.size]
  split
  · rename_i h80
    simp only [h80, true_imp_iff]
    omega
  · rename_i h80
    simp only [h80, false_imp_iff, iff_true]
    omega

/-- The node of an element has the element's size exactly if the element is whole. -/
theorem ElementHead.Begins.ownHead_node_iff (hw : 32 ≤ w) (he : e.Begins w p) :
    OwnHead w (e.node w p) ↔ e.Whole w := by
  have hpos : 0 < 2 ^ w := Nat.pow_pos (by norm_num)
  rw [ElementHead.Whole, ← ElementHead.octets_le_size_iff]
  constructor
  · rintro ⟨e', he', hsize⟩
    have happend := he'.append (p.drop (e.size % 2 ^ w))
    rw [ElementHead.node, List.take_append_drop] at happend
    obtain rfl := he.unique hw happend
    have hsize : e.size % 2 ^ w = e.size := hsize
    have hoctets := he'.octets_le
    rw [ElementHead.node, List.length_take] at hoctets
    exact ⟨hsize ▸ Nat.mod_lt _ hpos, by omega⟩
  · rintro ⟨hlt, hoctets⟩
    have hsize : e.size % 2 ^ w = e.size := Nat.mod_eq_of_lt hlt
    refine ⟨e, ?_, hsize⟩
    rw [ElementHead.node, hsize]
    exact he.take hoctets

/-- The loop meets the first element, and what it meets behind it. -/
theorem forall_meets_iff (hw : 32 ≤ w) {P : Bytes → ℤ → Prop} (he : e.Begins w p)
    (hle : e.size % 2 ^ w ≤ p.length) (hpos : 0 < total) :
    (∀ q left, Meets w p total q left → P q left) ↔ P p total ∧
      ∀ q left, Meets w (p.drop (e.size % 2 ^ w)) (total - (e.size % 2 ^ w : ℕ)) q left →
        P q left := by
  constructor
  · intro hall
    exact ⟨hall _ _ .here, fun q left hmeets => hall q left (.next hpos he hle hmeets)⟩
  · rintro ⟨hfirst, hrest⟩ q left hmeets
    cases hmeets with
    | here => exact hfirst
    | next _ he' _ hmeets =>
        obtain rfl := he.unique hw he'
        exact hrest q left hmeets

theorem Meets.not_pos {q : Bytes} (hmeets : Meets w p total q left) (hstop : ¬ 0 < total) :
    ¬ 0 < left := by
  cases hmeets with
  | here => exact hstop
  | next hpos => exact absurd hpos hstop

/-- The nodes of the loop are what it has run over, and have the sizes that they announce exactly
if all elements that it has met are whole. -/
theorem readElements_eq_ok (hw : 32 ≤ w) (hp : (p.length : ℤ) ≤ total) (htotal : total < 2 ^ 31)
    {fuel : ℕ} {nodes : List AnyBuf} (h : readElements w fuel p total = ok (nodes, left)) :
    (∃ rest, p = nodes.flatMap AnyBuf.pData ++ rest ∧ total - p.length = left - rest.length) ∧
      ((∀ node ∈ nodes, OwnHead w node) ↔ ∀ q left, Meets w p total q left → 0 < left →
        ∀ e : ElementHead, e.Begins w q → e.Whole w) := by
  induction fuel generalizing p total nodes with
  | zero =>
      by_cases hpos : 0 < total
      · rw [readElements, if_pos hpos] at h
        cases h
      · rw [readElements_stop hpos] at h
        cases h
        exact ⟨⟨p, rfl, rfl⟩, iff_of_true (by simp) fun q left hmeets hleft =>
          absurd hleft (hmeets.not_pos hpos)⟩
  | succ fuel ih =>
      by_cases hpos : 0 < total
      · obtain ⟨node, hread, -⟩ := bind_eq_ok.mp ((if_pos hpos).symm.trans (readElements.eq_def .. ▸ h))
        obtain ⟨e, he, hle, rfl⟩ := begins_of_readElement hw hread
        rw [readElements_of_le hw he hp htotal hpos hle] at h
        obtain ⟨⟨nodes', left'⟩, hmore, hend⟩ := bind_eq_ok.mp h
        rw [ok.injEq, Prod.mk.injEq] at hend
        obtain ⟨rfl, rfl⟩ := hend
        obtain ⟨⟨rest, hsplit, hrest⟩, hiff⟩ :=
          ih (length_drop_le hp hle) (by omega) hmore
        refine ⟨⟨rest, ?_, ?_⟩, ?_⟩
        · rw [List.flatMap_cons, List.append_assoc, ← hsplit, ElementHead.node,
            List.take_append_drop]
        · rw [List.length_drop, Nat.cast_sub hle] at hrest
          omega
        · rw [List.forall_mem_cons, he.ownHead_node_iff hw, hiff, forall_meets_iff hw he hle hpos]
          refine and_congr_left fun _ => ⟨fun hwhole _ e' he' => ?_, fun hall => hall hpos e he⟩
          obtain rfl := he.unique hw he'
          exact hwhole
      · rw [readElements_stop hpos] at h
        cases h
        exact ⟨⟨p, rfl, rfl⟩, iff_of_true (by simp) fun q left hmeets hleft =>
          absurd hleft (hmeets.not_pos hpos)⟩

end Elements

namespace Linked

/-- A sequence that was accepted: the loop has taken all that its head announces. -/
theorem loop_of_readSequence {w : ℕ} {b : Bytes} {unusedBits dataType : ℕ} {ppSequence : Option ℕ}
    {nodes : NodeHeap AnyBuf} (hw : 32 ≤ w)
    (h : derItAsn1ReadSequence w ⟨b, b.length, unusedBits, dataType⟩ = ok (ppSequence, nodes)) :
    ∃ e : ElementHead, e.Begins w b ∧ e.tag % 256 = DerTag.sequence ∧
      e.size % 2 ^ w = b.length ∧ e.length < 2 ^ 31 ∧ ∃ last vs, nodes.IsList ppSequence last vs ∧
      readElements w (e.length : ℤ).toNat (b.drop e.octets) e.length = ok (vs, 0) := by
  obtain ⟨vs, hvs, ⟨last, hlist⟩, -⟩ := (readSequence_refines w _).exists_of_ok h
  obtain ⟨s₀, hstart, -⟩ := bind_eq_ok.mp h
  obtain ⟨e, he, htag, hsize, -⟩ := (ElementLoop.start_eq_ok hw).mp hstart
  rw [readSequence_of_begins hw he, if_neg (not_not.mpr htag), if_neg (not_not.mpr hsize.symm)] at hvs
  obtain ⟨⟨vs', left⟩, hloop, hend⟩ := bind_eq_ok.mp hvs
  dsimp only at hend
  -- the counter is zero at the end
  obtain ⟨rfl, rfl⟩ : left = 0 ∧ vs' = vs := by
    by_cases hleft : left = 0
    · rw [if_neg (not_not.mpr hleft)] at hend
      exact ⟨hleft, ok.inj hend⟩
    · rw [if_pos hleft] at hend
      cases hend
  have hlt : e.length < 2 ^ 31 := by
    by_contra hge
    have hneg := toInt32_neg (not_lt.mp hge) he.length_lt
    generalize toInt32 (e.length : ℤ) = total at hloop hneg
    rw [readElements_stop (by omega), ok.injEq, Prod.mk.injEq] at hloop
    exact absurd hloop.2 hneg.ne
  rw [toInt32_of_range (by omega) (by omega)] at hloop
  exact ⟨e, he, htag, hsize, hlt, last, vs', hlist, hloop⟩

/-- The list that is returned is linked, its nodes put together are the last octets of the input,
as many as its length announces, and each has the size that its own head announces. -/
def SplitsContents (w : ℕ) (b : Bytes) (ppSequence : Option ℕ) (nodes : NodeHeap AnyBuf) : Prop :=
  ∃ e : ElementHead, e.Begins w b ∧ ∃ last vs, nodes.IsList ppSequence last vs ∧
    vs.flatMap AnyBuf.pData = b.drop (b.length - e.length) ∧ ∀ node ∈ vs, OwnHead w node

/-- The list that is returned splits the contents exactly if all elements that the loop has met
are whole: their sizes are not cut, and none has the length octet `0x80` with a zero octet
behind it. -/
theorem splitsContents_iff (platform : Platform) (b : Bytes) (unusedBits dataType : ℕ)
    {ppSequence : Option ℕ} {nodes : NodeHeap AnyBuf}
    (h : derItAsn1ReadSequence platform.ulongBits ⟨b, b.length, unusedBits, dataType⟩ =
      ok (ppSequence, nodes)) :
    SplitsContents platform.ulongBits b ppSequence nodes ↔
      ∀ q left, LoopMeets platform.ulongBits b q left → ∀ e : ElementHead,
        e.Begins platform.ulongBits q → e.Whole platform.ulongBits := by
  have hw := platform.le_ulongBits
  generalize platform.ulongBits = w at hw h ⊢
  obtain ⟨e, he, htag, hsize, hlt, last, vs, hlist, hloop⟩ := loop_of_readSequence hw h
  have hfit := length_contents_le hsize
  obtain ⟨⟨rest, hsplit, hrest⟩, hiff⟩ := readElements_eq_ok hw (by omega) (by omega) hloop
  obtain rfl : rest = [] := List.eq_nil_of_length_eq_zero (by omega)
  rw [List.append_nil] at hsplit
  have hcontents : b.drop e.octets = b.drop (b.length - e.length) := by
    have hoctets := he.octets_le
    rw [List.length_drop, List.length_nil] at hrest
    rw [show e.octets = b.length - e.length by omega]
  simp only [loopMeets_iff hw he, htag, hsize, hlt, true_and, and_imp]
  rw [← hiff]
  constructor
  · rintro ⟨-, -, last', vs', hlist', -, hown⟩
    rwa [NodeHeap.IsList.unique hlist hlist']
  · intro hown
    exact ⟨e, he, last, vs, hlist, by rw [← hsplit, hcontents], hown⟩

/-- A sequence of the number 5. -/
theorem splitsContents_iff_five : SplitsContents Platform.x64.ulongBits [0x30, 3, 2, 1, 5] (some 0)
    [⟨⟨[2, 1, 5], 3, 0, 2⟩, none, none⟩] := by
  have hread : derItAsn1ReadSequence Platform.x64.ulongBits ⟨[0x30, 3, 2, 1, 5], 5, 0, 16⟩ =
      ok (some 0, [⟨⟨[2, 1, 5], 3, 0, 2⟩, none, none⟩]) := by
    decide +kernel
  have hsequence : ElementHead.Begins 64 ⟨[0x30], [3], 16, 3⟩ [0x30, 3, 2, 1, 5] :=
    ⟨.low (by decide) (by decide), [2, 1, 5], rfl, .definite (.short (b := 3) (by decide))⟩
  have hinteger : ElementHead.Begins 64 ⟨[2], [1], 2, 1⟩ [2, 1, 5] :=
    ⟨.low (by decide) (by decide), [5], rfl, .definite (.short (b := 1) (by decide))⟩
  refine (splitsContents_iff .x64 [0x30, 3, 2, 1, 5] 0 16 hread).mpr ?_
  rintro q left ⟨e, he, -, -, -, hmeets, hpos⟩
  obtain rfl := hsequence.unique (by norm_num [Platform.ulongBits]) he
  cases hmeets with
  | here =>
      intro e' he'
      obtain rfl := hinteger.unique (by norm_num [Platform.ulongBits]) he'
      exact ⟨by decide, by decide⟩
  | next _ he' _ hmeets =>
      obtain rfl := hinteger.unique (by norm_num [Platform.ulongBits]) he'
      cases hmeets with
      | here => exact absurd hpos (by decide)
      | next hpos' => exact absurd hpos' (by decide)

/-- The length of the first element is the tag of the second. -/
theorem not_splitsContents_octet80 : ∃ ppSequence nodes,
    derItAsn1ReadSequence Platform.x64.ulongBits ⟨[0x30, 4, 4, 0x80, 0, 0], 6, 0, 16⟩ =
      ok (ppSequence, nodes) ∧
    ¬ SplitsContents Platform.x64.ulongBits [0x30, 4, 4, 0x80, 0, 0] ppSequence nodes := by
  refine ⟨some 0, [⟨⟨[4, 0x80], 2, 0, 4⟩, none, some 1⟩, ⟨⟨[0, 0], 2, 0, 0⟩, some 0, none⟩],
    by decide +kernel, ?_⟩
  rintro ⟨-, -, last, vs, hlist, -, hown⟩
  have hnodes : NodeHeap.IsList [⟨⟨[4, 0x80], 2, 0, 4⟩, none, some 1⟩,
      ⟨⟨[0, 0], 2, 0, 0⟩, some 0, none⟩] (some 0) (some 1)
      [(⟨[4, 0x80], 2, 0, 4⟩ : AnyBuf), ⟨[0, 0], 2, 0, 0⟩] :=
    ⟨[0, 1], by decide, rfl, rfl, rfl, rfl, trivial⟩
  obtain ⟨e, he, -⟩ := hown ⟨[4, 0x80], 2, 0, 4⟩ (by rw [← hnodes.unique hlist]; simp)
  have htag : derItAsn1LowGetTagInfo 64 [4, 0x80] = ok ⟨4, 1, [0x80]⟩ := by decide +kernel
  have hlen : derItAsn1LowGetLengthInfo 64 [0x80] = fault .readOutOfBounds := by decide +kernel
  have hinfo := he.getTagInfo.symm.trans htag
  rw [ok.injEq, Head.mk.injEq] at hinfo
  have hread := he.getLengthInfo (by norm_num [Platform.ulongBits])
  rw [hinfo.2.2] at hread
  cases hlen.symm.trans hread

end Linked

end SafeTransmission
