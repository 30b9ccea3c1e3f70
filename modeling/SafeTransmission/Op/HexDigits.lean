import SafeTransmission.Op.Composing

/-!
# The digits of a digest

Both programs print the 16 octets of a digest with `%02x` each, at every second place of
`authcd`, `authCode` or `Key`.  The octets are in an array of `char`.  One from `0x80` on is
converted to a negative `int`, and has eight digits, of which the next turn of the loop leaves
two: `ff`, whatever the octet was.  The digits are those of the digest, inside 33 bytes, and of
no other one, exactly if every octet is below `0x80` (`rendersHex_iff`).
-/

namespace SafeTransmission

open Outcome

section SignedText

variable {md md' : Bytes} {b b' : UInt8}

theorem signedText_cons (hmd : md ≠ []) :
    signedText (b :: md) = (signedOctet b).take 2 ++ signedText md := by
  cases md with
  | nil => exact absurd rfl hmd
  | cons c md => rfl

theorem signedOctet_of_lt (hb : b < 0x80) : signedOctet b = hexOctet b :=
  if_pos hb

theorem take_signedOctet (hb : ¬b < 0x80) : (signedOctet b).take 2 = [0x66, 0x66] := by
  rw [signedOctet, if_neg hb]
  rfl

theorem signedText_eq_hexText (hmd : ∀ b ∈ md, b < 0x80) : signedText md = hexText md := by
  induction md with
  | nil => rfl
  | cons b md ih =>
      obtain ⟨hb, hrest⟩ := List.forall_mem_cons.mp hmd
      rw [hexText, List.flatMap_cons, ← hexText]
      by_cases hnil : md = []
      · rw [hnil, signedText, signedOctet_of_lt hb]
        exact (List.append_nil _).symm
      · rw [signedText_cons hnil, signedOctet_of_lt hb, ih hrest]
        rfl

/-- The first two digits of an octet below `0x80` are its own. -/
theorem eq_of_take_signedOctet (hb : b < 0x80) (h : (signedOctet b').take 2 = hexOctet b) :
    b' = b := by
  by_cases hb' : b' < 0x80
  · rw [signedOctet_of_lt hb'] at h
    exact hexOctet_inj h
  · rw [take_signedOctet hb'] at h
    have hlow : b.toNat < 128 := hb
    have hdigit : hexDigit 15 = hexDigit (b.toNat / 16) := (List.cons.inj h).1
    have hhigh := hexDigit_inj (by norm_num) (by omega) hdigit
    omega

/-- The digits of octets below `0x80` are the text of no others. -/
theorem eq_of_signedText (hmd : ∀ b ∈ md, b < 0x80) (hlen : md'.length = md.length)
    (h : signedText md' = hexText md) : md' = md := by
  induction md generalizing md' with
  | nil => exact List.length_eq_zero_iff.mp hlen
  | cons b md ih =>
      obtain ⟨b', md', rfl⟩ := List.exists_cons_of_length_eq_add_one hlen
      obtain ⟨hb, hrest⟩ := List.forall_mem_cons.mp hmd
      have hlen' : md'.length = md.length := Nat.succ.inj hlen
      rw [hexText, List.flatMap_cons, ← hexText] at h
      by_cases hnil : md' = []
      · have hzero : md.length = 0 := hlen' ▸ List.length_eq_zero_iff.mpr hnil
        have hnil' : md = [] := List.length_eq_zero_iff.mp hzero
        subst hnil hnil'
        rw [signedText, hexText, List.flatMap_nil, List.append_nil] at h
        have htake : (signedOctet b').take 2 = hexOctet b := by
          rw [h]
          rfl
        rw [eq_of_take_signedOctet hb htake]
      · rw [signedText_cons hnil] at h
        have htwo : ((signedOctet b').take 2).length = (hexOctet b).length := by
          rw [List.length_take, length_signedOctet]
          split <;> rfl
        obtain ⟨hfirst, htext⟩ := List.append_inj h htwo
        rw [eq_of_take_signedOctet hb hfirst, ih hrest hlen' htext]

/-- In front of the last octet all negative numbers leave the same digits. -/
theorem signedText_set {i : ℕ} (hi : md[i]? = some b) (hlast : i + 1 < md.length) (hb : ¬b < 0x80)
    (hb' : ¬b' < 0x80) : signedText (md.set i b') = signedText md := by
  induction md generalizing i with
  | nil => cases hi
  | cons c md ih =>
      have hne : md ≠ [] := by
        rintro rfl
        rw [List.length_singleton] at hlast
        omega
      cases i with
      | zero =>
          obtain rfl : c = b := Option.some.inj hi
          rw [List.set_cons_zero, signedText_cons hne, signedText_cons hne, take_signedOctet hb,
            take_signedOctet hb']
      | succ i =>
          have hne' : md.set i b' ≠ [] := by
            rwa [ne_eq, List.set_eq_nil_iff]
          rw [List.set_cons_succ, signedText_cons hne', signedText_cons hne,
            ih hi (Nat.lt_of_succ_lt_succ hlast)]

end SignedText

/-- The loop leaves the digits of the digest in every buffer of 34 bytes, of which it writes 33 at
most, and the digits that it leaves for another digest are different. -/
structure RendersHex (md : Vector UInt8 16) : Prop where
  inside : ∃ o, printLoop 0 md.toList (.zero 33) = ok o
  digits : ∀ {n : ℕ} (o : CObject n) (off : ℕ), off + 34 ≤ n →
    ∃ o', printLoop off md.toList o = ok o' ∧ o'.Holds off (hexText md.toList ++ [0])
  distinct : ∀ md' ≠ md, ∀ {n : ℕ} (o₁ o₂ : CObject n) {o₁' o₂' : CObject n} (off : ℕ),
    printLoop off md'.toList o₁ = ok o₁' → printLoop off md.toList o₂ = ok o₂' →
      o₁'.str off ≠ o₂'.str off

section RendersHex

variable {md md' : Vector UInt8 16}

theorem str_of_printLoop {n off : ℕ} {o o' : CObject n} (h : printLoop off md.toList o = ok o') :
    o'.str off = signedText md.toList := by
  have hne : md.toList ≠ [] := List.ne_nil_of_length_pos (by rw [Vector.length_toList]; norm_num)
  exact ((printLoop_inv h).1 hne).str_eq (zero_notMem_signedText _)

/-- A negative octet is printed like another one, if its eight digits end in 33 bytes. -/
theorem lt_of_rendersHex (h : RendersHex md) : ∀ b ∈ md.toList, b < 0x80 := by
  intro b hb
  obtain ⟨i, hi⟩ := List.mem_iff_getElem?.mp hb
  by_contra hhigh
  have hends := exists_printLoop_iff.mp h.inside
  have hfits := hends i b hi
  rw [length_signedOctet, if_neg hhigh] at hfits
  have hlen : md.toList.length = 16 := Vector.length_toList
  obtain ⟨b', hb', hne⟩ : ∃ b' : UInt8, ¬b' < 0x80 ∧ b' ≠ b := by
    by_cases hff : b = 0xFF
    · exact ⟨0x80, by decide, by rw [hff]; decide⟩
    · exact ⟨0xFF, by decide, Ne.symm hff⟩
  have hsame := signedText_set hi (by omega) hhigh hb'
  obtain ⟨md', hmd'⟩ : ∃ md' : Vector UInt8 16, md'.toList = md.toList.set i b' :=
    ⟨⟨(md.toList.set i b').toArray, by simp⟩, rfl⟩
  have hother : md' ≠ md := by
    rintro rfl
    have hget := congrArg (·[i]?) hmd'
    simp only [List.getElem?_set_self (List.getElem?_eq_some_iff.mp hi).1, hi] at hget
    exact hne (Option.some.inj hget).symm
  obtain ⟨o, hloop⟩ := h.inside
  obtain ⟨o', hloop'⟩ : ∃ o', printLoop 0 md'.toList (.zero 33) = ok o' := by
    refine exists_printLoop_iff.mpr fun j c hc => ?_
    rw [hmd', List.getElem?_set] at hc
    split at hc
    · rename_i hij
      split at hc
      · obtain rfl : b' = c := Option.some.inj hc
        rw [length_signedOctet, if_neg hb', ← hij]
        exact hfits
      · cases hc
    · exact hends j c hc
  refine h.distinct md' hother _ _ 0 hloop' hloop ?_
  rw [str_of_printLoop hloop, str_of_printLoop hloop', hmd', hsame]

/-- The digits of a digest are printed, inside 33 bytes and for no other digest, exactly if no
octet is a negative `char`. -/
theorem rendersHex_iff (md : Vector UInt8 16) :
    RendersHex md ↔ ∀ b ∈ md.toList, b < 0x80 := by
  refine ⟨lt_of_rendersHex, fun hmd => ?_⟩
  have hlen : md.toList.length = 16 := Vector.length_toList
  have htext := signedText_eq_hexText hmd
  have hfits : ∀ {n : ℕ} (o : CObject n) (off : ℕ), off + 33 ≤ n →
      ∃ o', printLoop off md.toList o = ok o' := by
    intro n o off hn
    refine exists_printLoop_iff.mpr fun i b hi => ?_
    have hlt := (List.getElem?_eq_some_iff.mp hi).1
    rw [signedOctet_of_lt (hmd b (List.mem_of_getElem? hi))]
    have htwo : (hexOctet b).length = 2 := rfl
    omega
  refine ⟨hfits _ _ le_rfl, fun o off hn => ?_, fun md' hne n o₁ o₂ o₁' o₂' off h₁ h₂ heq => ?_⟩
  · obtain ⟨o', hloop⟩ := hfits o off (by omega)
    have hheld := (printLoop_inv hloop).1 (List.ne_nil_of_length_pos (by omega))
    rw [htext] at hheld
    exact ⟨o', hloop, hheld⟩
  · rw [str_of_printLoop h₁, str_of_printLoop h₂, htext] at heq
    have hsame := eq_of_signedText hmd (by rw [Vector.length_toList, hlen]) heq
    exact hne (Vector.toList_inj.mp hsame)

/-- The last octet has eight digits, which end 39 bytes behind the begin of the buffer. -/
theorem not_rendersHex_last : ¬RendersHex #v[0, 0, 0, 0, 0, 0, 0, 0, 0, 0, 0, 0, 0, 0, 0, 0x80] := by
  rintro ⟨hinside, -, -⟩
  have hfits := exists_printLoop_iff.mp hinside 15 0x80 rfl
  revert hfits
  decide

end RendersHex

end SafeTransmission
