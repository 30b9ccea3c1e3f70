import SafeTransmission.Asn1.Rounds

/-!
# Where `DER_ItAsn1_ReadSequence` reads

Neither reader knows where the input ends, and an element is copied before its size is
compared with what is left.  So nothing outside the node is read, and what is malformed is
rejected with a code, exactly if the head of the sequence and every element that the loop
comes to end inside (`readsInside_iff`).

What goes wrong otherwise is one of the cases of `ElementFaults`:

* `noHead`, `tooLong`: the reader or `memcpy` leaves the node;
* `refused`: a length with more than four octets ends the loop, but not with a code, as the
  pointer to the previous length is freed a second time;
* `stuck`: on 32 bits the size of an element may add up to zero, and the loop does not move.

`readSequence_eq_fault_iff` says that there is nothing else, first for an input that begins
with a head (`readSequence_eq_fault_of_begins`), then for one that does not.
-/

namespace SafeTransmission

open Outcome

/-- The octets that are read in front of the loop end inside `b`: the tag octets, and behind
those of a sequence the length octets, unless there are more than four of them. -/
inductive HeadInside (w : ℕ) (b : Bytes) : Prop where
  | otherTag {ident q : Bytes} {tag : ℕ} (htag : TagOctets w ident tag) (hb : b = ident ++ q)
      (hother : tag % 256 ≠ DerTag.sequence) : HeadInside w b
  | refused (h : Refused w b) : HeadInside w b
  | head {e : ElementHead} (he : e.Begins w b) : HeadInside w b

/-- The loop is entered, and comes to `q` with `left` octets to go. -/
def LoopMeets (w : ℕ) (b q : Bytes) (left : ℤ) : Prop :=
  ∃ e : ElementHead, e.Begins w b ∧ e.tag % 256 = DerTag.sequence ∧ e.size % 2 ^ w = b.length ∧
    e.length < 2 ^ 31 ∧ Meets w (b.drop e.octets) e.length q left ∧ 0 < left

section Sequence

variable {w : ℕ} {b : Bytes} {e : ElementHead} {unusedBits dataType : ℕ}

theorem toInt32_neg {n : ℕ} (hlow : 2 ^ 31 ≤ n) (hhigh : n < 2 ^ 32) : toInt32 n < 0 := by
  rw [toInt32, Int.bmod_def]
  norm_num
  split <;> omega

theorem length_contents_le (hsize : e.size % 2 ^ w = b.length) :
    (b.drop e.octets).length ≤ e.length := by
  have hle := Nat.mod_le e.size (2 ^ w)
  have hoctets : e.ident.length + e.lenOctets.length ≤ e.octets := Nat.le_add_right _ _
  rw [hsize, ElementHead.size] at hle
  rw [List.length_drop]
  omega

/-- The calls in front of the loop. -/
theorem readSequence_of_begins (hw : 32 ≤ w) (he : e.Begins w b) :
    derItAsn1ReadSequence w ⟨b, b.length, unusedBits, dataType⟩ =
      if e.tag % 256 ≠ DerTag.sequence then err DerErrType.invalidTag
      else if b.length ≠ e.size % 2 ^ w then err DerErrType.lengthNotEqual
      else (do
        let (nodes, left) ← readElements w (toInt32 e.length).toNat (b.drop e.octets)
          (toInt32 e.length)
        if left ≠ 0 then err DerErrType.lengthErr else ok nodes) := by
  rw [derItAsn1ReadSequence, he.getTagInfo, ok_bind]
  dsimp only
  rw [he.getLengthInfo hw, ok_bind]
  rfl

/-- What the loop comes to, behind the one head of the sequence. -/
theorem loopMeets_iff (hw : 32 ≤ w) (he : e.Begins w b) {q : Bytes} {left : ℤ} :
    LoopMeets w b q left ↔ e.tag % 256 = DerTag.sequence ∧ e.size % 2 ^ w = b.length ∧
      e.length < 2 ^ 31 ∧ Meets w (b.drop e.octets) e.length q left ∧ 0 < left := by
  constructor
  · rintro ⟨e', he', hmeets⟩
    obtain rfl := he.unique hw he'
    exact hmeets
  · intro hmeets
    exact ⟨e, he, hmeets⟩

/-- Behind a head the call ends in an undefined step if the loop comes to an element that makes it
do so. -/
theorem readSequence_eq_fault_of_begins (hw : 32 ≤ w) (he : e.Begins w b) {kind : Fault} :
    derItAsn1ReadSequence w ⟨b, b.length, unusedBits, dataType⟩ = fault kind ↔
      ∃ q left, LoopMeets w b q left ∧ ElementFaults w q kind := by
  rw [readSequence_of_begins hw he]
  simp only [loopMeets_iff hw he]
  -- the loop runs only on a sequence of the right size, whose length is a positive `int`
  by_cases htag : e.tag % 256 = DerTag.sequence
  · rw [if_neg (not_not.mpr htag)]
    by_cases hsize : b.length = e.size % 2 ^ w
    · rw [if_neg (not_not.mpr hsize)]
      by_cases hlt : e.length < 2 ^ 31
      · have htotal : toInt32 (e.length : ℤ) = e.length := toInt32_of_range (by omega) (by omega)
        have hfit := length_contents_le hsize.symm
        have hloop := @readElements_eq_fault_iff w (b.drop e.octets) e.length kind hw (by omega)
          (by omega) e.length le_rfl
        rw [htotal, Int.toNat_natCast]
        simp only [htag, hsize.symm, hlt, true_and, and_assoc]
        rw [← hloop, bind_eq_fault, or_iff_left]
        rintro ⟨⟨nodes, left⟩, -, hend⟩
        dsimp only at hend
        split at hend <;> cases hend
      · have hneg := toInt32_neg (not_lt.mp hlt) he.length_lt
        rw [readElements_stop (by omega), ok_bind]
        dsimp only
        rw [if_pos (by omega)]
        refine iff_of_false (by simp) ?_
        rintro ⟨q, left, ⟨-, -, hless, -⟩, -⟩
        exact hlt hless
    · rw [if_pos hsize]
      refine iff_of_false (by simp) ?_
      rintro ⟨q, left, ⟨-, hsame, -⟩, -⟩
      exact hsize hsame.symm
  · rw [if_pos htag]
    refine iff_of_false (by simp) ?_
    rintro ⟨q, left, ⟨hsame, -⟩, -⟩
    exact htag hsame

/-- Without a head the call ends in an undefined step if the readers leave the node. -/
theorem readSequence_eq_fault_of_noHead (hw : 32 ≤ w) (hnone : ∀ e : ElementHead, ¬ e.Begins w b)
    {kind : Fault} : derItAsn1ReadSequence w ⟨b, b.length, unusedBits, dataType⟩ = fault kind ↔
      ¬ HeadInside w b ∧ kind = .readOutOfBounds := by
  rw [derItAsn1ReadSequence]
  by_cases hrefused : Refused w b
  · have hinside : HeadInside w b := .refused hrefused
    obtain ⟨ident, tag, o, q, htag, rfl, ho⟩ := hrefused
    rw [getTagInfo_append htag, ok_bind]
    dsimp only
    rw [getLengthInfo_of_refused ho]
    refine iff_of_false ?_ fun hout => hout.1 hinside
    split <;> simp
  · -- either reader may be the one that leaves the node
    rcases reads_of_noHead hw hnone hrefused with htag | ⟨tag, htag, hlen⟩
    · have hout : ¬ HeadInside w b := by
        rintro (⟨htagOctets, rfl, -⟩ | h | he)
        · rw [getTagInfo_append htagOctets] at htag
          cases htag
        · exact hrefused h
        · exact hnone _ he
      rw [htag, fault_bind]
      simp [hout, eq_comm]
    · rw [htag, ok_bind]
      obtain ⟨ident, hident, htagOctets, -⟩ := getTagInfo_inv htag
      by_cases hother : tag.value % 256 ≠ DerTag.sequence
      · rw [if_pos hother]
        have hinside : HeadInside w b := .otherTag htagOctets hident hother
        exact iff_of_false (by simp) fun hout => hout.1 hinside
      · have hout : ¬ HeadInside w b := by
          rintro (⟨htagOctets', hb, hother'⟩ | h | he)
          · have hsame := htag.symm.trans (hb ▸ getTagInfo_append htagOctets' _)
            rw [ok.injEq] at hsame
            rw [hsame] at hother
            exact hother hother'
          · exact hrefused h
          · exact hnone _ he
        rw [if_neg hother, hlen, fault_bind]
        simp [hout, eq_comm]

/-- The whole call ends in an undefined step if the readers of the head leave the node, or if
the loop comes to an element that makes it do so. -/
theorem readSequence_eq_fault_iff (hw : 32 ≤ w) {kind : Fault} :
    derItAsn1ReadSequence w ⟨b, b.length, unusedBits, dataType⟩ = fault kind ↔
      (¬ HeadInside w b ∧ kind = .readOutOfBounds) ∨
        ∃ q left, LoopMeets w b q left ∧ ElementFaults w q kind := by
  by_cases hhead : ∃ e : ElementHead, e.Begins w b
  · obtain ⟨e, he⟩ := hhead
    rw [or_iff_right fun hout => hout.1 (.head he)]
    exact readSequence_eq_fault_of_begins hw he
  · have hnone := not_exists.mp hhead
    rw [or_iff_left]
    · exact readSequence_eq_fault_of_noHead hw hnone
    · rintro ⟨q, left, ⟨e, he, -⟩, -⟩
      exact hnone e he

end Sequence

namespace Linked

theorem readSequence_eq_fault_iff {w : ℕ} (hw : 32 ≤ w) {b : Bytes} {unusedBits dataType : ℕ}
    {kind : Fault} :
    derItAsn1ReadSequence w ⟨b, b.length, unusedBits, dataType⟩ = fault kind ↔
      (¬ HeadInside w b ∧ kind = .readOutOfBounds) ∨
        ∃ q left, LoopMeets w b q left ∧ ElementFaults w q kind :=
  (readSequence_refines w _).eq_fault_iff.trans (SafeTransmission.readSequence_eq_fault_iff hw)

section Bounds

variable {w : ℕ} {b : Bytes} {unusedBits dataType : ℕ} {pDerSequence : AnyBuf}

end Bounds

end Linked

end SafeTransmission
