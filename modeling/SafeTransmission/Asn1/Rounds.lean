import SafeTransmission.Asn1.ElementHeads
import SafeTransmission.Asn1.Elements
import SafeTransmission.Asn1.ReadSequence

/-!
# The rounds of the element loop

`Meets` says which places of the contents the loop comes to: it moves from the head of
an element by the size that the head adds up to.  The loop ends in an undefined step
exactly if it meets an element that makes it do so (`readElements_eq_fault_iff`).
-/

namespace SafeTransmission

open Outcome

/-- From `p` and a counter of `total` the loop comes to `q` and a counter of `left`. -/
inductive Meets (w : ℕ) : Bytes → ℤ → Bytes → ℤ → Prop where
  | here {p : Bytes} {total : ℤ} : Meets w p total p total
  | next {p q : Bytes} {total left : ℤ} {e : ElementHead} (hpos : 0 < total) (he : e.Begins w p)
      (hle : e.size % 2 ^ w ≤ p.length)
      (hrest : Meets w (p.drop (e.size % 2 ^ w)) (total - (e.size % 2 ^ w : ℕ)) q left) :
      Meets w p total q left

/-- What goes wrong with the element at `p`. -/
inductive ElementFaults (w : ℕ) (p : Bytes) : Fault → Prop where
  | noHead (hhead : ∀ e : ElementHead, ¬ e.Begins w p) (hrefused : ¬ Refused w p) :
      ElementFaults w p .readOutOfBounds
  | tooLong {e : ElementHead} (he : e.Begins w p) (hsize : e.size % 2 ^ w < 2 ^ (w - 1))
      (hlt : p.length < e.size % 2 ^ w) : ElementFaults w p .readOutOfBounds
  | refused (hrefused : Refused w p) : ElementFaults w p .doubleFree
  | stuck {e : ElementHead} (he : e.Begins w p) (hzero : e.size % 2 ^ w = 0) :
      ElementFaults w p .diverges

/-- The node that is made of the element at `p`. -/
def ElementHead.node (e : ElementHead) (w : ℕ) (p : Bytes) : AnyBuf :=
  ⟨p.take (e.size % 2 ^ w), e.size % 2 ^ w, 0, e.tag⟩

section Loop

variable {w : ℕ} {p q : Bytes} {total left : ℤ} {e : ElementHead}

/-- The counter stays as far above the number of octets as it was. -/
theorem Meets.left_eq (h : Meets w p total q left) :
    q.length ≤ p.length ∧ total - p.length = left - q.length := by
  induction h with
  | here => exact ⟨le_rfl, rfl⟩
  | next hpos he hle hrest ih =>
      rw [List.length_drop, Nat.cast_sub hle] at ih
      omega

theorem length_drop_le {n : ℕ} (hp : (p.length : ℤ) ≤ total) (hle : n ≤ p.length) :
    ((p.drop n).length : ℤ) ≤ total - n := by
  rw [List.length_drop, Nat.cast_sub hle]
  omega

theorem size_lt_of_le (hw : 32 ≤ w) (hp : (p.length : ℤ) ≤ total) (htotal : total < 2 ^ 31)
    (hle : e.size % 2 ^ w ≤ p.length) : e.size % 2 ^ w < 2 ^ (w - 1) := by
  have hpow : (2 : ℕ) ^ 31 ≤ 2 ^ (w - 1) := Nat.pow_le_pow_right (by norm_num) (by omega)
  omega

theorem ElementHead.Begins.readElement_of_le (hw : 32 ≤ w) (he : e.Begins w p)
    (hp : (p.length : ℤ) ≤ total) (htotal : total < 2 ^ 31) (hle : e.size % 2 ^ w ≤ p.length) :
    SafeTransmission.readElement w p = ok (e.node w p) := by
  have hlt := size_lt_of_le hw hp htotal hle
  rw [he.readElement hw, if_neg (not_le.mpr hlt), if_pos hle]
  rfl

theorem toInt32_left (hp : (p.length : ℤ) ≤ total) (htotal : total < 2 ^ 31)
    (hle : e.size % 2 ^ w ≤ p.length) :
    toInt32 (total - (e.node w p).dataLen) = total - (e.size % 2 ^ w : ℕ) := by
  rw [ElementHead.node]
  dsimp only
  rw [toInt32_of_range] <;> omega

theorem readElements_of_le (hw : 32 ≤ w) (he : e.Begins w p) (hp : (p.length : ℤ) ≤ total)
    (htotal : total < 2 ^ 31) (hpos : 0 < total) (hle : e.size % 2 ^ w ≤ p.length) (fuel : ℕ) :
    readElements w (fuel + 1) p total = (do
      let (nodes, left) ← readElements w fuel (p.drop (e.size % 2 ^ w))
        (total - (e.size % 2 ^ w : ℕ))
      ok (e.node w p :: nodes, left)) := by
  rw [readElements, if_pos hpos, he.readElement_of_le hw hp htotal hle, ok_bind,
    toInt32_left hp htotal hle]
  rfl

/-- A size of zero stops the pointer. -/
theorem readElements_of_stuck (hw : 32 ≤ w) (he : e.Begins w p) (hp : (p.length : ℤ) ≤ total)
    (htotal : total < 2 ^ 31) (hpos : 0 < total) (hzero : e.size % 2 ^ w = 0) (fuel : ℕ) :
    readElements w fuel p total = fault .diverges := by
  induction fuel with
  | zero => rw [readElements, if_pos hpos]
  | succ fuel ih =>
      rw [readElements_of_le hw he hp htotal hpos (by omega), hzero, List.drop_zero, Nat.cast_zero,
        sub_zero, ih, fault_bind]

/-- What goes wrong with an element goes wrong in the round. -/
theorem ElementFaults.readElements {kind : Fault} (hw : 32 ≤ w) (h : ElementFaults w p kind)
    (hp : (p.length : ℤ) ≤ total) (htotal : total < 2 ^ 31) (hpos : 0 < total) (fuel : ℕ) :
    readElements w (fuel + 1) p total = fault kind := by
  cases h with
  | noHead hhead hrefused =>
      rw [SafeTransmission.readElements, if_pos hpos, readElement_of_noHead hw hhead hrefused,
        fault_bind]
  | tooLong he hsize hlt =>
      rw [SafeTransmission.readElements, if_pos hpos, he.readElement hw, if_neg (not_le.mpr hsize),
        if_neg (not_le.mpr hlt), fault_bind]
  | refused hrefused =>
      rw [SafeTransmission.readElements, if_pos hpos, readElement_of_refused hrefused, fault_bind]
  | stuck he hzero => exact readElements_of_stuck hw he hp htotal hpos hzero _

/-- A round does not end in an undefined step unless its element makes it do so. -/
theorem elementFaults_of_readElement {kind : Fault} (hw : 32 ≤ w)
    (h : readElement w p = fault kind) : ElementFaults w p kind := by
  rcases refused_or_begins w p with hrefused | ⟨e, he⟩ | ⟨hnone, hrefused⟩
  · rw [readElement_of_refused hrefused] at h
    cases h
    exact .refused hrefused
  · rw [he.readElement hw] at h
    split at h
    · cases h
    · rename_i hsize
      split at h
      · cases h
      · rename_i hlt
        cases h
        exact .tooLong he (not_le.mp hsize) (not_le.mp hlt)
  · rw [readElement_of_noHead hw hnone hrefused] at h
    cases h
    exact .noHead hnone hrefused

/-- The element of a round that returned zero. -/
theorem begins_of_readElement {node : AnyBuf} (hw : 32 ≤ w) (h : readElement w p = ok node) :
    ∃ e : ElementHead, e.Begins w p ∧ e.size % 2 ^ w ≤ p.length ∧ node = e.node w p := by
  rcases refused_or_begins w p with hrefused | ⟨e, he⟩ | ⟨hnone, hrefused⟩
  · rw [readElement_of_refused hrefused] at h
    cases h
  · rw [he.readElement hw] at h
    split at h
    · cases h
    · obtain ⟨hle, hnode⟩ := guard_eq_ok.mp h
      exact ⟨e, he, hle, hnode⟩
  · rw [readElement_of_noHead hw hnone hrefused] at h
    cases h

/-- The loop ends in an undefined step exactly if it meets an element that makes it do so. -/
theorem readElements_eq_fault_iff {kind : Fault} (hw : 32 ≤ w) (hp : (p.length : ℤ) ≤ total)
    (htotal : total < 2 ^ 31) {fuel : ℕ} (hfuel : total ≤ fuel) :
    readElements w fuel p total = fault kind ↔
      ∃ q left, Meets w p total q left ∧ 0 < left ∧ ElementFaults w q kind := by
  constructor
  · intro h
    induction fuel generalizing p total with
    | zero =>
        rw [readElements, if_neg (by omega)] at h
        cases h
    | succ fuel ih =>
        by_cases hpos : 0 < total
        · cases hround : readElement w p with
          | ok node =>
              obtain ⟨e, he, hle, rfl⟩ := begins_of_readElement hw hround
              -- an element of size zero uses up all the fuel, any other one goes on to the rest
              by_cases hzero : e.size % 2 ^ w = 0
              · rw [readElements_of_stuck hw he hp htotal hpos hzero] at h
                cases h
                exact ⟨p, total, .here, hpos, .stuck he hzero⟩
              · rw [readElements_of_le hw he hp htotal hpos hle] at h
                have hrest : readElements w fuel (p.drop (e.size % 2 ^ w))
                    (total - (e.size % 2 ^ w : ℕ)) = fault kind := by
                  rcases bind_eq_fault.mp h with hrest | ⟨result, -, hend⟩
                  · exact hrest
                  · cases hend
                obtain ⟨q, left, hmeets, hleft, hfaults⟩ :=
                  ih (length_drop_le hp hle) (by omega) (by omega) hrest
                exact ⟨q, left, .next hpos he hle hmeets, hleft, hfaults⟩
          | err code =>
              rw [readElements, if_pos hpos, hround, err_bind] at h
              cases h
          | fault kind' =>
              rw [readElements, if_pos hpos, hround, fault_bind] at h
              cases h
              exact ⟨p, total, .here, hpos, elementFaults_of_readElement hw hround⟩
        · rw [readElements, if_neg hpos] at h
          cases h
  · rintro ⟨q, left, hmeets, hleft, hfaults⟩
    -- each element on the way is a round
    induction hmeets generalizing fuel with
    | @here p total =>
        obtain ⟨fuel, rfl⟩ : ∃ k, fuel = k + 1 := ⟨fuel - 1, by omega⟩
        exact hfaults.readElements hw hp htotal hleft fuel
    | @next p q total left e hpos he hle hrest ih =>
        have hend : ∀ k : ℕ, total - (e.size % 2 ^ w : ℕ) ≤ k →
            readElements w k (p.drop (e.size % 2 ^ w)) (total - (e.size % 2 ^ w : ℕ)) = fault kind :=
          fun k hk => ih (length_drop_le hp hle) (by omega) hk hleft hfaults
        by_cases hzero : e.size % 2 ^ w = 0
        · simpa [hzero] using hend fuel (by omega)
        · obtain ⟨fuel, rfl⟩ : ∃ k, fuel = k + 1 := ⟨fuel - 1, by omega⟩
          rw [readElements_of_le hw he hp htotal hpos hle, hend fuel (by omega), fault_bind]

end Loop

end SafeTransmission
