import SafeTransmission.Asn1.Bounds

/-!
# Does the element loop end?

A round moves the pointer and decreases the counter by the size of an element, which is a
sum in `unsigned long`.  Where that has 64 bits, the sum is that of the three sizes and at
least 2.  Where it has 32 bits, a length just below `2 ^ 32` makes the sum 0 or 1: with 0
the loop stays where it is for ever (`terminates_iff`).

## Strategy

* A round on an element that fits is one step of the loop (`Holds.exists_step`), so each place that
  the loop comes to is reached by rounds (`exists_run_of_loopMeets`).
* If every round moves the pointer by two octets or more, there are at most half as many rounds as
  octets (`Holds.length_run`); where one moves it by less, there is an element with such a size
  (`progresses_of_run`).
* In 64 bits the three sizes add up without a wrap (`two_le_size`).
-/

namespace SafeTransmission

open Outcome

namespace Linked

namespace ElementLoop

/-- The round that comes next moves the pointer by two octets or more inside its block, and
decreases the counter. -/
def Progresses (w : ℕ) (s : ElementLoop) : Prop :=
  ∀ s', s.step w () = ok s' →
    (∃ k, 2 ≤ k ∧ k ≤ s.pMidData.length ∧ s'.pMidData = s.pMidData.drop k) ∧
      s'.lTotalLength < s.lTotalLength

/-- The contents have no more octets than the counter says, and fewer than `2 ^ 31`. -/
structure Fits (s : ElementLoop) : Prop where
  length_le : (s.pMidData.length : ℤ) ≤ s.lTotalLength
  lt : s.lTotalLength < 2 ^ 31

variable {w : ℕ} {s s' : ElementLoop} {vs : List AnyBuf} {e : ElementHead}

/-- What a round does. -/
theorem Holds.of_step (hw : 32 ≤ w) (h : s.Holds vs) (hfits : s.Fits) (hstep : s.step w () = ok s') :
    ∃ e : ElementHead, 0 < s.lTotalLength ∧ e.Begins w s.pMidData ∧
      e.size % 2 ^ w ≤ s.pMidData.length ∧ s'.Holds (vs ++ [e.node w s.pMidData]) ∧
      s'.pMidData = s.pMidData.drop (e.size % 2 ^ w) ∧
      s'.lTotalLength = s.lTotalLength - (e.size % 2 ^ w : ℕ) := by
  obtain ⟨hpos, hround⟩ := require_bind_eq_ok.mp hstep
  obtain ⟨node, hread, hholds, hdata, htotal⟩ := (h.round w).exists_of_ok hround
  obtain ⟨e, he, hle, rfl⟩ := begins_of_readElement hw hread
  rw [toInt32_left hfits.length_le hfits.lt hle] at htotal
  exact ⟨e, hpos, he, hle, hholds, hdata, htotal⟩

theorem Holds.exists_step (hw : 32 ≤ w) (h : s.Holds vs) (hfits : s.Fits) (hpos : 0 < s.lTotalLength)
    (he : e.Begins w s.pMidData) (hle : e.size % 2 ^ w ≤ s.pMidData.length) :
    ∃ s', s.step w () = ok s' ∧ s'.Holds (vs ++ [e.node w s.pMidData]) ∧
      s'.pMidData = s.pMidData.drop (e.size % 2 ^ w) ∧
      s'.lTotalLength = s.lTotalLength - (e.size % 2 ^ w : ℕ) := by
  have hread := he.readElement_of_le hw hfits.length_le hfits.lt hle
  obtain ⟨s', hround, hholds, hdata, htotal⟩ := (h.round w).exists_of_abstract_ok hread
  rw [toInt32_left hfits.length_le hfits.lt hle] at htotal
  exact ⟨s', by rw [step, require_bind_of hpos, hround], hholds, hdata, htotal⟩

theorem Fits.next (hfits : s.Fits) (hle : e.size % 2 ^ w ≤ s.pMidData.length)
    (hdata : s'.pMidData = s.pMidData.drop (e.size % 2 ^ w))
    (htotal : s'.lTotalLength = s.lTotalLength - (e.size % 2 ^ w : ℕ)) : s'.Fits := by
  have hlength := hfits.length_le
  have hlt := hfits.lt
  refine ⟨?_, by omega⟩
  rw [hdata, htotal, List.length_drop, Nat.cast_sub hle]
  omega

/-- What a number of rounds does: each creates a node. -/
theorem Holds.of_run (hw : 32 ≤ w) {rounds : List Unit} (h : s.Holds vs) (hfits : s.Fits)
    (hrun : run (step w) rounds s = ok s') :
    Meets w s.pMidData s.lTotalLength s'.pMidData s'.lTotalLength ∧ s'.Fits ∧
      ∃ vs', s'.Holds (vs ++ vs') ∧ vs'.length = rounds.length := by
  induction rounds generalizing s vs with
  | nil =>
      cases hrun
      exact ⟨.here, hfits, [], by rwa [List.append_nil], rfl⟩
  | cons r rounds ih =>
      obtain ⟨s₁, hstep, hrest⟩ := bind_eq_ok.mp hrun
      obtain ⟨e, hpos, he, hle, hholds, hdata, htotal⟩ := h.of_step hw hfits hstep
      obtain ⟨hmeets, hfits', vs', hholds', hlen⟩ := ih hholds (hfits.next hle hdata htotal) hrest
      rw [hdata, htotal] at hmeets
      rw [List.append_assoc] at hholds'
      exact ⟨.next hpos he hle hmeets, hfits', _, hholds', by simp [hlen]⟩

theorem Holds.exists_run (hw : 32 ≤ w) {p q : Bytes} {total left : ℤ}
    (hmeets : Meets w p total q left) (h : s.Holds vs) (hfits : s.Fits) (hp : s.pMidData = p)
    (htotal : s.lTotalLength = total) :
    ∃ rounds s' vs', run (step w) rounds s = ok s' ∧ s'.Holds vs' ∧ s'.Fits ∧ s'.pMidData = q ∧
      s'.lTotalLength = left := by
  induction hmeets generalizing s vs with
  | here => exact ⟨[], s, vs, rfl, h, hfits, hp, htotal⟩
  | next hpos he hle hrest ih =>
      subst hp htotal
      obtain ⟨s₁, hstep, hholds, hdata, hleft⟩ := h.exists_step hw hfits hpos he hle
      obtain ⟨rounds, s', vs', hrun, hend⟩ := ih hholds (hfits.next hle hdata hleft) hdata hleft
      exact ⟨() :: rounds, s', vs', by rw [run, hstep, ok_bind, hrun], hend⟩

/-- With two octets or more in each round there are no more rounds than half the octets. -/
theorem Holds.length_run (hw : 32 ≤ w) {rounds : List Unit} (h : s.Holds vs) (hfits : s.Fits)
    (hsize : ∀ q left, Meets w s.pMidData s.lTotalLength q left → 0 < left →
      ∀ e : ElementHead, e.Begins w q → 2 ≤ e.size % 2 ^ w)
    (hrun : run (step w) rounds s = ok s') :
    s'.pMidData.length + 2 * rounds.length ≤ s.pMidData.length := by
  induction rounds generalizing s vs with
  | nil =>
      cases hrun
      simp
  | cons r rounds ih =>
      obtain ⟨s₁, hstep, hrest⟩ := bind_eq_ok.mp hrun
      obtain ⟨e, hpos, he, hle, hholds, hdata, htotal⟩ := h.of_step hw hfits hstep
      have htwo := hsize _ _ .here hpos e he
      have hlater := ih hholds (hfits.next hle hdata htotal)
        (fun q left hmeets => hsize q left (.next hpos he hle (by rwa [hdata, htotal] at hmeets)))
        hrest
      rw [hdata, List.length_drop] at hlater
      rw [List.length_cons]
      omega

theorem start_eq_ok {b : Bytes} {unusedBits dataType : ℕ} (hw : 32 ≤ w) :
    start w ⟨b, b.length, unusedBits, dataType⟩ = ok s ↔
      ∃ e : ElementHead, e.Begins w b ∧ e.tag % 256 = DerTag.sequence ∧
        e.size % 2 ^ w = b.length ∧ s = ⟨b.drop e.octets, toInt32 e.length, true, none, none, []⟩ := by
  constructor
  · intro hstart
    obtain ⟨tag, htag, hstart⟩ := bind_eq_ok.mp hstart
    by_cases hsequence : tag.value % 256 = DerTag.sequence
    · rw [if_neg (not_not.mpr hsequence)] at hstart
      obtain ⟨len, hlen, hstart⟩ := bind_eq_ok.mp hstart
      obtain ⟨e, he⟩ := ElementHead.begins_of_reads hw htag hlen
      obtain rfl := ok.inj (he.getTagInfo.symm.trans htag)
      obtain rfl := ok.inj ((he.getLengthInfo hw).symm.trans hlen)
      dsimp only at hstart hsequence
      rw [← ElementHead.size] at hstart
      by_cases hsize : b.length = e.size % 2 ^ w
      · rw [if_neg (not_not.mpr hsize), ok.injEq] at hstart
        exact ⟨e, he, hsequence, hsize.symm, hstart.symm⟩
      · rw [if_pos hsize] at hstart
        cases hstart
    · rw [if_pos hsequence] at hstart
      cases hstart
  · rintro ⟨e, he, htag, hsize, rfl⟩
    rw [start, he.getTagInfo, ok_bind]
    dsimp only
    rw [if_neg (not_not.mpr htag), he.getLengthInfo hw, ok_bind]
    dsimp only
    rw [← ElementHead.size, if_neg (not_not.mpr hsize.symm)]

theorem holds_start (p : Bytes) (total : ℤ) : Holds ⟨p, total, true, none, none, []⟩ [] :=
  ⟨NodeHeap.isList_nil, by simp, rfl⟩

end ElementLoop

open ElementLoop

/-- From the start of the loop every round makes progress, so that there are no more rounds, and
no more nodes, than half of the content length, and the call does not run for ever. -/
def Terminates (w : ℕ) (pDerSequence : AnyBuf) : Prop :=
  ∀ s₀, start w pDerSequence = ok s₀ →
    (∀ rounds s, run (step w) rounds s₀ = ok s →
      s.Progresses w ∧ 2 * rounds.length ≤ s₀.lTotalLength.toNat ∧ s.nodes.length = rounds.length) ∧
    derItAsn1ReadSequence w pDerSequence ≠ fault .diverges

section Terminates

variable {w : ℕ} {b : Bytes} {unusedBits dataType : ℕ}

theorem fits_start {e : ElementHead} (hsize : e.size % 2 ^ w = b.length) (hlt : e.length < 2 ^ 31) :
    Fits ⟨b.drop e.octets, e.length, true, none, none, []⟩ := by
  have hle := length_contents_le hsize
  constructor
  · dsimp only
    omega
  · dsimp only
    omega

theorem exists_run_of_loopMeets (hw : 32 ≤ w) {q : Bytes} {left : ℤ} (hmeets : LoopMeets w b q left) :
    ∃ s₀ rounds s vs, start w ⟨b, b.length, unusedBits, dataType⟩ = ok s₀ ∧
      run (step w) rounds s₀ = ok s ∧ s.Holds vs ∧ s.Fits ∧ s.pMidData = q ∧
      s.lTotalLength = left := by
  obtain ⟨e, he, htag, hsize, hlt, hmeets, -⟩ := hmeets
  have hstart := (@start_eq_ok w _ b unusedBits dataType hw).mpr ⟨e, he, htag, hsize, rfl⟩
  rw [toInt32_of_range (by omega) (by omega)] at hstart
  obtain ⟨rounds, s, vs, hrun, hend⟩ := (holds_start (b.drop e.octets) e.length).exists_run hw hmeets
    (fits_start hsize hlt) rfl rfl
  exact ⟨_, rounds, s, vs, hstart, hrun, hend⟩

/-- A round that moves the pointer by two octets or more is on an element of that size. -/
theorem two_le_of_progresses (hw : 32 ≤ w) {s : ElementLoop} {vs : List AnyBuf} {e : ElementHead}
    (hholds : s.Holds vs) (hfits : s.Fits) (hpos : 0 < s.lTotalLength) (he : e.Begins w s.pMidData)
    (hprogresses : s.Progresses w) : 2 ≤ e.size % 2 ^ w := by
  by_contra hless
  have hoctets := he.octets_le
  have htwo := he.two_le
  have hle : e.ident.length + e.lenOctets.length ≤ e.octets := Nat.le_add_right _ _
  obtain ⟨s', hstep, -, hdata, -⟩ := hholds.exists_step hw hfits hpos he (by omega)
  obtain ⟨⟨k, hk, hkle, hdrop⟩, -⟩ := hprogresses s' hstep
  have hlength := congrArg List.length (hdata.symm.trans hdrop)
  rw [List.length_drop, List.length_drop] at hlength
  omega

theorem run_eq_ok_of_neg {rounds : List Unit} {s₀ s : ElementLoop}
    (hrun : run (step w) rounds s₀ = ok s) (hneg : s₀.lTotalLength < 0) :
    rounds = [] ∧ s = s₀ ∧ s.Progresses w := by
  cases rounds with
  | nil =>
      cases hrun
      refine ⟨rfl, rfl, fun s' hstep => ?_⟩
      exact absurd (require_bind_eq_ok.mp hstep).1 (by omega)
  | cons r rounds =>
      obtain ⟨s₁, hstep, -⟩ := bind_eq_ok.mp hrun
      exact absurd (require_bind_eq_ok.mp hstep).1 (by omega)

/-- If every element has two octets or more, every round makes progress. -/
theorem progresses_of_run (hw : 32 ≤ w)
    (hsizes : ∀ q left, LoopMeets w b q left → ∀ e : ElementHead, e.Begins w q → 2 ≤ e.size % 2 ^ w)
    {s₀ s : ElementLoop} {rounds : List Unit}
    (hstart : start w ⟨b, b.length, unusedBits, dataType⟩ = ok s₀)
    (hrun : run (step w) rounds s₀ = ok s) :
    s.Progresses w ∧ 2 * rounds.length ≤ s₀.lTotalLength.toNat ∧ s.nodes.length = rounds.length := by
  obtain ⟨e, he, htag, hsize, rfl⟩ := (start_eq_ok hw).mp hstart
  by_cases hlt : e.length < 2 ^ 31
  · rw [toInt32_of_range (by omega) (by omega)] at hrun ⊢
    simp only [loopMeets_iff hw he, htag, hsize, hlt, true_and, and_imp] at hsizes
    have hfit := fits_start hsize hlt
    have hzero := holds_start (b.drop e.octets) e.length
    obtain ⟨hmeets, hfits, vs, hholds, hlen⟩ := hzero.of_run hw hfit hrun
    have hcount := hzero.length_run hw hfit hsizes hrun
    refine ⟨fun s' hstep => ?_, ?_, ?_⟩
    · obtain ⟨e', hpos, he', hle, -, hdata, htotal'⟩ := hholds.of_step hw hfits hstep
      have htwo := hsizes _ _ hmeets hpos e' he'
      exact ⟨⟨_, htwo, hle, hdata⟩, by omega⟩
    · have hle := hfit.length_le
      dsimp only at hcount hle ⊢
      omega
    · rw [hholds.length, List.nil_append, hlen]
  · have hneg := toInt32_neg (not_lt.mp hlt) he.length_lt
    generalize toInt32 (e.length : ℤ) = total at hrun hneg ⊢
    obtain ⟨rfl, rfl, hprogresses⟩ := run_eq_ok_of_neg hrun hneg
    exact ⟨hprogresses, by simp, rfl⟩

/-- The call terminates exactly if no element that the loop comes to has a size of 0 or 1 in
`unsigned long`. -/
theorem terminates_iff_two_le (hw : 32 ≤ w) :
    Terminates w ⟨b, b.length, unusedBits, dataType⟩ ↔
      ∀ q left, LoopMeets w b q left → ∀ e : ElementHead, e.Begins w q → 2 ≤ e.size % 2 ^ w := by
  constructor
  · rintro hterminates q left hmeets e he
    have hpos : 0 < left := by
      obtain ⟨-, -, -, -, -, -, hpos⟩ := hmeets
      exact hpos
    obtain ⟨s₀, rounds, s, vs, hstart, hrun, hholds, hfits, rfl, rfl⟩ :=
      @exists_run_of_loopMeets w b unusedBits dataType hw q left hmeets
    exact two_le_of_progresses hw hholds hfits hpos he ((hterminates s₀ hstart).1 rounds s hrun).1
  · rintro hsizes s₀ hstart
    refine ⟨fun rounds s hrun => progresses_of_run hw hsizes hstart hrun, ?_⟩
    rw [ne_eq, readSequence_eq_fault_iff hw]
    rintro (⟨-, hkind⟩ | ⟨q, left, hmeets, hfaults⟩)
    · cases hkind
    · cases hfaults with
      | stuck he' hzero =>
          have htwo := hsizes q left hmeets _ he'
          omega

/-- Of three sizes in 64 bits none is lost. -/
theorem two_le_size {q : Bytes} {left : ℤ} {e : ElementHead} (hmeets : LoopMeets 64 b q left)
    (he : e.Begins 64 q) : 2 ≤ e.size % 2 ^ 64 := by
  obtain ⟨e₀, he₀, -, hsize, hlt, hmeets, -⟩ := hmeets
  have hle := length_contents_le hsize
  have hq := hmeets.left_eq.1
  have hoctets := he.octets_le
  have hoctetsLe : e.ident.length + e.lenOctets.length ≤ e.octets := Nat.le_add_right _ _
  have htwo := he.two_le
  have hlength := he.length_lt
  rw [ElementHead.size, Nat.mod_eq_of_lt (by omega)]
  omega

end Terminates

/-- The call terminates exactly if no element that the loop comes to has a size of 0 or 1 in
`unsigned long`.  With 64 bits there is no such element. -/
theorem terminates_iff (platform : Platform) (b : Bytes) (unusedBits dataType : ℕ) :
    (Terminates platform.ulongBits ⟨b, b.length, unusedBits, dataType⟩ ↔
      ∀ q left, LoopMeets platform.ulongBits b q left → ∀ e : ElementHead,
        e.Begins platform.ulongBits q → 2 ≤ e.size % 2 ^ platform.ulongBits) ∧
    Terminates Platform.x64.ulongBits ⟨b, b.length, unusedBits, dataType⟩ :=
  ⟨terminates_iff_two_le platform.le_ulongBits,
    (terminates_iff_two_le Platform.x64.le_ulongBits).mpr fun _ _ hmeets _ he =>
      two_le_size hmeets he⟩

/-- A length of `0xFFFFFFFA`, and six octets of head. -/
theorem not_terminates_wrap :
    ¬ Terminates Platform.x86.ulongBits ⟨[0x30, 6, 4, 0x84, 0xFF, 0xFF, 0xFF, 0xFA], 8, 0, 16⟩ := by
  intro hterminates
  have hstart : start Platform.x86.ulongBits
      ⟨[0x30, 6, 4, 0x84, 0xFF, 0xFF, 0xFF, 0xFA], 8, 0, 16⟩ =
        ok ⟨[4, 0x84, 0xFF, 0xFF, 0xFF, 0xFA], 6, true, none, none, []⟩ := by
    decide +kernel
  have hdiverges : derItAsn1ReadSequence Platform.x86.ulongBits
      ⟨[0x30, 6, 4, 0x84, 0xFF, 0xFF, 0xFF, 0xFA], 8, 0, 16⟩ = fault .diverges := by
    decide +kernel
  exact (hterminates _ hstart).2 hdiverges

end Linked

end SafeTransmission
