import SafeTransmission.Library.Der

/-!
# What encoded octets denote

The basic encoding rules for identifiers, lengths, integers and bit strings, as a conforming
decoder reads them: a tag with its class and number (`Identifier.octets`), a length in the definite
form, with any number of octets behind the first (`DefiniteLength`), an integer in two's complement
(`beInt`), and a bit string behind the number of bits that its last octet leaves unused
(`bitString`).
-/

namespace SafeTransmission

/-! ## Identifiers -/

/-- The classes of tags. -/
inductive TagClass where
  | universalClass
  | applicationClass
  | contextSpecificClass
  | privateClass
deriving DecidableEq, Repr

/-- The first two bits of an identifier. -/
def TagClass.bits : TagClass → ℕ
  | universalClass => 0
  | applicationClass => 1
  | contextSpecificClass => 2
  | privateClass => 3

/-- A tag, and whether its contents are elements themselves. -/
structure Identifier where
  tagClass : TagClass
  constructed : Bool
  number : ℕ
deriving DecidableEq, Repr

namespace Identifier

/-- An octet with the class, the bit for constructed contents, and five more bits. -/
def lead (id : Identifier) (low : ℕ) : UInt8 :=
  UInt8.ofNat (64 * id.tagClass.bits + 32 * id.constructed.toNat + low)

/-- The shortest digits of a number to the base 128.  All octets but the last have the top bit. -/
def subsequentOctets (number : ℕ) : Bytes :=
  (Nat.digits 128 (number / 128)).reverse.map (fun d => UInt8.ofNat (128 + d)) ++
    [UInt8.ofNat (number % 128)]

/-- The identifier octets of a tag. -/
def octets (id : Identifier) : Bytes :=
  if id.number ≤ 30 then [id.lead id.number]
  else id.lead 31 :: subsequentOctets id.number

example : octets ⟨.contextSpecificClass, true, 201⟩ = [0xBF, 0x81, 0x49] := by decide

theorem toNat_lead (id : Identifier) {low : ℕ} (hlow : low < 32) :
    (id.lead low).toNat = 64 * id.tagClass.bits + 32 * id.constructed.toNat + low := by
  have hbits : id.tagClass.bits ≤ 3 := by
    cases id.tagClass <;> decide
  have hbool := Bool.toNat_le id.constructed
  rw [lead, UInt8.toNat_ofNat']
  omega

theorem lead_mod (id : Identifier) {low : ℕ} (hlow : low < 32) :
    (id.lead low).toNat % 32 = low := by
  rw [toNat_lead id hlow]
  omega

theorem toNat_last_lt (number : ℕ) : (UInt8.ofNat (number % 128)).toNat < 128 := by
  rw [UInt8.toNat_ofNat']
  omega

end Identifier

/-! ## Lengths -/

/-- Length octets of the definite form, and the length. -/
inductive DefiniteLength : Bytes → ℕ → Prop where
  | short {b : UInt8} (hb : b.toNat < 128) : DefiniteLength [b] b.toNat
  | long {b : UInt8} {bs : Bytes} (hpos : 1 ≤ bs.length) (hle : bs.length ≤ 126)
      (hb : b.toNat = 128 + bs.length) : DefiniteLength (b :: bs) (beNat bs)

/-- It is seen from the length octets where they end. -/
theorem DefiniteLength.append_inj {l l' c c' : Bytes} {n n' : ℕ} (h : DefiniteLength l n)
    (h' : DefiniteLength l' n') (heq : l ++ c = l' ++ c') : l = l' ∧ c = c' := by
  apply List.append_inj heq
  cases h with
  | @short b hb =>
      cases h' with
      | @short b' hb' => rfl
      | @long b' bs' hpos' hle' hb' =>
          obtain rfl : b = b' := List.head_eq_of_cons_eq heq
          omega
  | @long b bs hpos hle hb =>
      cases h' with
      | @short b' hb' =>
          obtain rfl : b = b' := List.head_eq_of_cons_eq heq
          omega
      | @long b' bs' hpos' hle' hb' =>
          obtain rfl : b = b' := List.head_eq_of_cons_eq heq
          rw [List.length_cons, List.length_cons]
          omega

/-! ## Integers -/

/-- The integer that octets denote in two's complement, most significant octet first. -/
def beInt : Bytes → ℤ
  | [] => 0
  | b :: r => if b.toNat < 128 then beNat (b :: r) else beNat (b :: r) - 256 ^ (r.length + 1)

/-- The first nine bits of the octets are not all the same. -/
def MinimalInt : Bytes → Prop
  | [] => False
  | [_] => True
  | b :: b' :: _ => (b = 0 → 128 ≤ b'.toNat) ∧ (b = 0xFF → b'.toNat < 128)

/-- `e` is the distinguished encoding of the integer `v`. -/
def DerInteger (v : ℤ) (e : Bytes) : Prop :=
  ∃ contents, MinimalInt contents ∧ beInt contents = v ∧ DerElement 2 contents e

section Integers

variable {c : Bytes}

theorem beInt_nonneg_iff {b : UInt8} {r : Bytes} : 0 ≤ beInt (b :: r) ↔ b.toNat < 128 := by
  rw [beInt]
  have hlt := beNat_lt (b :: r)
  rw [List.length_cons] at hlt
  split
  · rename_i hb
    exact iff_of_true (Int.natCast_nonneg _) hb
  · rename_i hb
    refine iff_of_false (fun hpos => ?_) hb
    have hcast : ((256 ^ (r.length + 1) : ℕ) : ℤ) ≤ beNat (b :: r) := by
      push_cast
      linarith
    exact absurd (Int.ofNat_le.mp hcast) (not_le.mpr hlt)

/-- Without a sign, octets denote the same number in two's complement and in binary. -/
theorem beInt_of_nonneg (h : 0 ≤ beInt c) : beInt c = beNat c := by
  cases c with
  | nil => rfl
  | cons b r => rw [beInt, if_pos (beInt_nonneg_iff.mp h)]

/-- The minimal forms of the integers from zero on. -/
theorem minimalNat_iff : MinimalNat c ↔ MinimalInt c ∧ 0 ≤ beInt c := by
  match c with
  | [] => exact iff_of_false id fun h => h.1
  | [b] => exact ⟨fun h => ⟨trivial, beInt_nonneg_iff.mpr h⟩, fun h => beInt_nonneg_iff.mp h.2⟩
  | b :: b' :: r =>
      rw [minimalNat_cons_cons, beInt_nonneg_iff]
      constructor
      · rintro ⟨hb, hzero⟩
        refine ⟨⟨hzero, fun hff => ?_⟩, hb⟩
        rw [hff] at hb
        exact absurd hb (by decide)
      · rintro ⟨⟨hzero, -⟩, hb⟩
        exact ⟨hb, hzero⟩

theorem DerInteger.unique {v : ℤ} {e e' : Bytes} (hv : 0 ≤ v) (h : DerInteger v e)
    (h' : DerInteger v e') : e = e' := by
  obtain ⟨c, hmin, hc, helement⟩ := h
  obtain ⟨c', hmin', hc', helement'⟩ := h'
  have hpos : 0 ≤ beInt c := hc ▸ hv
  have hpos' : 0 ≤ beInt c' := hc' ▸ hv
  have heq : beNat c = beNat c' := by
    have hcast : (beNat c : ℤ) = beNat c' := by
      rw [← beInt_of_nonneg hpos, ← beInt_of_nonneg hpos', hc, hc']
    exact Int.ofNat_inj.mp hcast
  obtain rfl := (minimalNat_iff.mpr ⟨hmin, hpos⟩).eq_of_beNat_eq (minimalNat_iff.mpr ⟨hmin', hpos'⟩) heq
  exact helement.unique helement'

end Integers

/-! ## Bit strings -/

/-- The bits of an octet, most significant first. -/
def octetBits (b : UInt8) : List Bool :=
  (List.range 8).map fun i => b.toNat.testBit (7 - i)

/-- The bits of an octet string. -/
def bitsOf (s : Bytes) : List Bool :=
  s.flatMap octetBits

/-- The bit string that contents octets denote: the first octet is the number of bits that the
last one leaves unused. -/
def bitString : Bytes → Option (List Bool)
  | [] => none
  | unused :: s =>
      if unused.toNat ≤ 7 ∧ (s = [] → unused = 0) then
        some ((bitsOf s).take (8 * s.length - unused.toNat))
      else none

/-- `e` is an element of the type BIT STRING, and denotes `bits`. -/
def DenotesBits (e : Bytes) (bits : List Bool) : Prop :=
  ∃ l contents, DefiniteLength l contents.length ∧ e = 3 :: (l ++ contents) ∧
    bitString contents = some bits

section Bits

variable {s : Bytes} {unused : UInt8}

@[simp] theorem length_bitsOf (s : Bytes) : (bitsOf s).length = 8 * s.length := by
  induction s with
  | nil => rfl
  | cons b s ih =>
      have hcons : bitsOf (b :: s) = octetBits b ++ bitsOf s := List.flatMap_cons
      rw [hcons, List.length_append, ih, octetBits, List.length_map, List.length_range,
        List.length_cons]
      ring

/-- A decoder gets all bits exactly if none is called unused. -/
theorem bitString_eq_some_iff : bitString (unused :: s) = some (bitsOf s) ↔ unused = 0 := by
  have hzero : unused.toNat = 0 ↔ unused = 0 := by
    rw [← UInt8.toNat_inj, UInt8.toNat_zero]
  rw [bitString]
  constructor
  · intro h
    split at h
    · rename_i hvalid
      have hlen := congrArg List.length (Option.some.inj h)
      rw [List.length_take, length_bitsOf] at hlen
      by_cases hs : s = []
      · exact hvalid.2 hs
      · have hpos := List.length_pos_of_ne_nil hs
        exact hzero.mp (by omega)
    · cases h
  · rintro rfl
    rw [if_pos ⟨by decide, fun _ => rfl⟩, UInt8.toNat_zero, Nat.sub_zero, ← length_bitsOf,
      List.take_length]

/-- What an element denotes is seen from its contents. -/
theorem denotesBits_iff {l contents : Bytes} {bits : List Bool}
    (hl : DefiniteLength l contents.length) :
    DenotesBits (3 :: (l ++ contents)) bits ↔ bitString contents = some bits := by
  constructor
  · rintro ⟨l', contents', hl', heq, hbits⟩
    obtain ⟨-, rfl⟩ := hl.append_inj hl' (List.tail_eq_of_cons_eq heq)
    exact hbits
  · intro hbits
    exact ⟨l, contents, hl, rfl, hbits⟩

end Bits

end SafeTransmission
