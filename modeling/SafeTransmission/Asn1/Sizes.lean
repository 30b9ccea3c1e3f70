import SafeTransmission.Asn1.ReadSequence
import SafeTransmission.Asn1.Heads

/-!
# The sizes that the readers of tags and lengths report

Both readers move the pointer and count octets in statements of their own.  The callers move
their pointer by the pointers of the readers, but compare and copy by the sizes.  The tag reader
counts every octet (`getTagInfo_exact`).  The length reader counts all but the octet behind `0x80`,
which it takes for a length in no octets (`getLengthInfo_exact_iff`).

So the sizes of a head are those of the pointers exactly if there is no such octet where a length is
read (`headsExact_iff`).
-/

namespace SafeTransmission

open Outcome

/-- The pointer was moved over as many octets of `p` as the size says. -/
def Head.Exact (f : Head) (p : Bytes) : Prop :=
  ∃ octets, p = octets ++ f.rest ∧ f.size = octets.length

/-- In front of `p` there is the length octet `0x80`, with another octet behind it. -/
def Octet80 (p : Bytes) : Prop :=
  ∃ n q, p = 0x80 :: n :: q

/-- Both readers report what they moved the pointer by, and so is the sum of both sizes where a
length is read behind a tag. -/
structure HeadsExact (w : ℕ) (p : Bytes) : Prop where
  tag : ∀ f, derItAsn1LowGetTagInfo w p = ok f → f.Exact p
  length : ∀ f, derItAsn1LowGetLengthInfo w p = ok f → f.Exact p
  both : ∀ f g, derItAsn1LowGetTagInfo w p = ok f → derItAsn1LowGetLengthInfo w f.rest = ok g →
    (⟨g.value, f.size + g.size, g.rest⟩ : Head).Exact p

section Exact

variable {w : ℕ} {p : Bytes} {f g : Head}

/-- The counter stays inside a block, whose size fits an `unsigned long`. -/
theorem Head.Exact.size_le (h : f.Exact p) : f.size ≤ p.length := by
  obtain ⟨octets, rfl, hsize⟩ := h
  rw [hsize, List.length_append]
  exact Nat.le_add_right _ _

/-- Behind exact octets, the sum is exact if the second size is. -/
theorem Head.Exact.add_iff (h : f.Exact p) (value : ℕ) :
    (⟨value, f.size + g.size, g.rest⟩ : Head).Exact p ↔ g.Exact f.rest := by
  obtain ⟨octets, rfl, hsize⟩ := h
  constructor
  · rintro ⟨both, hboth, hsum⟩
    have hle : octets.length ≤ both.length := by
      rw [← hsize, ← hsum]
      exact Nat.le_add_right _ _
    obtain ⟨more, rfl, hmore⟩ | ⟨more, rfl, hmore⟩ := List.append_eq_append_iff.mp hboth
    · refine ⟨more, hmore, ?_⟩
      rw [List.length_append, hsize] at hsum
      exact Nat.add_left_cancel hsum
    · -- then nothing was read behind the first octets
      rw [List.length_append] at hle hsize
      have hnil : more = [] := List.length_eq_zero_iff.mp (by omega)
      subst hnil
      refine ⟨[], hmore.symm, ?_⟩
      dsimp only at hsum
      rw [List.length_nil] at hsize ⊢
      omega
  · rintro ⟨more, hmore, hmoreSize⟩
    refine ⟨octets ++ more, ?_, ?_⟩
    · rw [List.append_assoc, ← hmore]
    · rw [List.length_append, ← hsize, ← hmoreSize]

theorem getTagInfo_exact (h : derItAsn1LowGetTagInfo w p = ok f) : f.Exact p := by
  obtain ⟨ident, hp, -, hsize⟩ := getTagInfo_inv h
  exact ⟨ident, hp, hsize⟩

/-- The length reader counts every octet but the one behind `0x80`. -/
theorem getLengthInfo_exact_iff (hw : 32 ≤ w) (h : derItAsn1LowGetLengthInfo w p = ok f) :
    f.Exact p ↔ ¬Octet80 p := by
  constructor
  · rintro ⟨octets, hp, hsize⟩ ⟨n, q, rfl⟩
    rw [getLengthInfo_octet80, ok.injEq] at h
    subst h
    have hlen := congrArg List.length hp
    simp only [List.length_append, List.length_cons] at hlen hsize
    omega
  · intro hnot
    rcases getLengthInfo_inv hw h with ⟨l, hp, -, hsize⟩ | ⟨n, hp, -, -⟩
    · exact ⟨l, hp, hsize⟩
    · exact absurd ⟨n, f.rest, hp⟩ hnot

end Exact

/-- The sizes of the heads are exact if and only if `0x80` with another octet is neither in front of
the block nor behind tag octets in front of it. -/
theorem headsExact_iff (platform : Platform) (p : Bytes) : HeadsExact platform.ulongBits p ↔
    ¬Octet80 p ∧ ∀ ident tag q, TagOctets platform.ulongBits ident tag → p = ident ++ q →
      ¬Octet80 q := by
  have hw := platform.le_ulongBits
  constructor
  · rintro ⟨-, hlength, hboth⟩
    refine ⟨?_, ?_⟩
    · rintro ⟨n, q, rfl⟩
      have hread := @getLengthInfo_octet80 platform.ulongBits n q
      exact (getLengthInfo_exact_iff hw hread).mp (hlength _ hread) ⟨n, q, rfl⟩
    · rintro ident tag - htag rfl ⟨n, q, rfl⟩
      have hreadTag := getTagInfo_append htag (0x80 :: n :: q)
      have hread := @getLengthInfo_octet80 platform.ulongBits n q
      have hexact := ((getTagInfo_exact hreadTag).add_iff _).mp (hboth _ _ hreadTag hread)
      exact (getLengthInfo_exact_iff hw hread).mp hexact ⟨n, q, rfl⟩
  · rintro ⟨hfront, hbehind⟩
    refine ⟨fun f hf => getTagInfo_exact hf, fun f hf => (getLengthInfo_exact_iff hw hf).mpr hfront,
      fun f g hf hg => ?_⟩
    obtain ⟨ident, hp, htag, -⟩ := getTagInfo_inv hf
    have hnot : ¬Octet80 f.rest := hbehind ident f.value f.rest htag hp
    exact ((getTagInfo_exact hf).add_iff _).mpr ((getLengthInfo_exact_iff hw hg).mpr hnot)

/-- The pointer is moved over two octets, and the size is one. -/
theorem not_headsExact_octet80 : ¬HeadsExact Platform.x64.ulongBits [0x80, 0] := by
  rintro ⟨-, hlength, -⟩
  have hread := @getLengthInfo_octet80 Platform.x64.ulongBits 0 []
  obtain ⟨octets, hp, hsize⟩ := hlength _ hread
  have hlen := congrArg List.length hp
  simp only [List.length_append, List.length_cons, List.length_nil] at hlen hsize
  omega

end SafeTransmission
