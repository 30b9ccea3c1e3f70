import SafeTransmission.Library.CObject

/-!
# Random strings, authentication codes and keys

The two programs make their secrets from strings: an authentication code is the
HMAC of `r1` under `#clientId@serverId#`, and a key is the hash of `r1` and `r2`
one after the other, both as hexadecimal digits.  The code and the key depend on
the strings alone, not on the memory they are read from
(`authenticationCode_eq`, `agreedKey_eq`).

The hash functions are parameters.
-/

namespace SafeTransmission

open Outcome

/-- The hash functions: HMAC with MD5 of `data` under `key`, and SHA-1. -/
structure Hashes where
  hmacMd5 (key data : Bytes) : Vector UInt8 16
  sha1 (data : Bytes) : Vector UInt8 20

/-! ## Formatted strings -/

/-- The string that is read for `%s`. -/
def stringAt (p : Bytes) : Outcome Bytes :=
  if 0 ∈ p then ok (cString p) else fault .readOutOfBounds

/-- `sprintf` of a text into an array of `cap` bytes: the text and its NUL. -/
def sprintf (cap : ℕ) (text : Bytes) : Outcome Bytes :=
  if text.length < cap then ok (text ++ [0]) else fault .writeOutOfBounds

/-- A digit of `%x`. -/
def hexDigit (k : ℕ) : UInt8 :=
  UInt8.ofNat (if k < 10 then 0x30 + k else 0x57 + k)

/-- `%02x` of an octet. -/
def hexOctet (b : UInt8) : Bytes :=
  [hexDigit (b.toNat / 16), hexDigit (b.toNat % 16)]

/-- The digits of a digest. -/
def hexText (md : Bytes) : Bytes :=
  md.flatMap hexOctet

/-- The loop `sprintf(&text[i * 2], "%02x", md[i])`.  Each turn writes over the NUL of the
turn before. -/
def printHex (cap : ℕ) (md : Bytes) : Outcome Bytes :=
  sprintf cap (hexText md)

/-! ## What both programs compute -/

/-- The authentication code that the client sends and the server recomputes. -/
def authenticationCode (h : Hashes) (clientId serverId r1 : Bytes) : Outcome Bytes := do
  let clientId ← stringAt clientId
  let serverId ← stringAt serverId
  let seckey ← sprintf 1024 (0x23 :: clientId ++ 0x40 :: serverId ++ [0x23])
  let data ← stringAt r1
  printHex 33 (h.hmacMd5 (cString seckey) data).toList

/-- The key that both programs compute from the random strings. -/
def agreedKey (h : Hashes) (r1 r2 : Bytes) : Outcome Bytes := do
  let r1 ← stringAt r1
  let r2 ← stringAt r2
  let seckey ← sprintf 1024 (r1 ++ r2)
  printHex 41 (h.sha1 (cString seckey)).toList

/-! ## Random strings -/

/-- The special characters, `~!@#$%^&*()_+`. -/
def specials : Bytes :=
  [0x7e, 0x21, 0x40, 0x23, 0x24, 0x25, 0x5e, 0x26, 0x2a, 0x28, 0x29, 0x5f, 0x2b]

/-- The character made from two values of `rand()`. -/
def randChar (flag value : ℕ) : UInt8 :=
  match flag % 4 with
  | 0 => UInt8.ofNat (value % 10 + 0x30)
  | 1 => UInt8.ofNat (value % 26 + 0x61)
  | 2 => UInt8.ofNat (value % 26 + 0x41)
  | _ => specials.getD (value % specials.length) 0

/-- The characters of `getRandString`, where `rand i` is the value of call `i` of `rand()`. -/
def randText (n : ℕ) (rand : ℕ → ℕ) : Bytes :=
  (List.range n).map fun i => randChar (rand (2 * i)) (rand (2 * i + 1))

/-- `getRandString`: the bytes it stores. -/
def getRandString (len : ℕ) (rand : ℕ → ℕ) : Bytes :=
  randText (len - 1) rand ++ [0]

/-- A character of the alphabet of the random strings. -/
def RandomChar (c : UInt8) : Prop :=
  0x30 ≤ c ∧ c ≤ 0x39 ∨ 0x61 ≤ c ∧ c ≤ 0x7a ∨ 0x41 ≤ c ∧ c ≤ 0x5a ∨ c ∈ specials

@[simp] theorem length_randText (n : ℕ) (rand : ℕ → ℕ) : (randText n rand).length = n := by
  simp [randText]

theorem randomChar_randChar (flag value : ℕ) : RandomChar (randChar flag value) := by
  have hflag : flag % 4 < 4 := Nat.mod_lt _ (by norm_num)
  have hten : value % 10 < 10 := Nat.mod_lt _ (by norm_num)
  have hletters : value % 26 < 26 := Nat.mod_lt _ (by norm_num)
  have hspecial : value % specials.length < specials.length := Nat.mod_lt _ (by decide)
  unfold randChar RandomChar
  generalize flag % 4 = k at hflag
  generalize value % 10 = d at hten
  generalize value % 26 = l at hletters
  simp only [UInt8.le_iff_toNat_le]
  interval_cases k
  · left
    simp
    omega
  · right; left
    simp
    omega
  · right; right; left
    simp
    omega
  · right; right; right
    rw [List.getD_eq_getElem _ _ hspecial]
    exact List.getElem_mem _

theorem exists_randChar {c : UInt8} (h : RandomChar c) : ∃ flag value, randChar flag value = c := by
  have hback : ∀ {base span : ℕ}, base ≤ c.toNat → c.toNat < base + span →
      UInt8.ofNat ((c.toNat - base) % span + base) = c := by
    intro base span hlow hhigh
    rw [Nat.mod_eq_of_lt (by omega), Nat.sub_add_cancel hlow, UInt8.ofNat_toNat]
  rcases h with ⟨hlow, hhigh⟩ | ⟨hlow, hhigh⟩ | ⟨hlow, hhigh⟩ | hspecial
  · exact ⟨0, c.toNat - 0x30, hback hlow (Nat.lt_succ_of_le hhigh)⟩
  · exact ⟨1, c.toNat - 0x61, hback hlow (Nat.lt_succ_of_le hhigh)⟩
  · exact ⟨2, c.toNat - 0x41, hback hlow (Nat.lt_succ_of_le hhigh)⟩
  · obtain ⟨i, hi, rfl⟩ := List.getElem_of_mem hspecial
    have hget : specials.getD (i % specials.length) 0 = specials[i] := by
      rw [Nat.mod_eq_of_lt hi, List.getD_eq_getElem _ _ hi]
    exact ⟨3, i, hget⟩

/-- The random strings are exactly the strings over the alphabet. -/
theorem exists_randText_iff {n : ℕ} {text : Bytes} :
    (∃ rand, randText n rand = text) ↔ text.length = n ∧ ∀ c ∈ text, RandomChar c := by
  constructor
  · rintro ⟨rand, rfl⟩
    refine ⟨length_randText n rand, fun c hc => ?_⟩
    obtain ⟨i, -, rfl⟩ := List.mem_map.mp hc
    exact randomChar_randChar _ _
  · rintro ⟨rfl, htext⟩
    have hchars : ∀ i : Fin text.length, ∃ flag value, randChar flag value = text.get i :=
      fun i => exists_randChar (htext _ (List.get_mem text i))
    choose flag value hmade using hchars
    -- call `2 * i` chooses the kind of character `i`, and the next call the character
    refine ⟨fun k => if hk : k / 2 < text.length then
      if k % 2 = 0 then flag ⟨k / 2, hk⟩ else value ⟨k / 2, hk⟩ else 0, ?_⟩
    apply List.ext_getElem
    · simp
    · intro i hi htext'
      have heven : 2 * i / 2 = i := by omega
      have hodd : (2 * i + 1) / 2 = i := by omega
      have hparity : (2 * i + 1) % 2 = 1 := by omega
      simpa [randText, heven, hodd, hparity, htext'] using hmade ⟨i, htext'⟩

theorem zero_notMem_randText (n : ℕ) (rand : ℕ → ℕ) : 0 ∉ randText n rand := by
  intro hzero
  have hchar := (exists_randText_iff.mp ⟨rand, rfl⟩).2 0 hzero
  revert hchar
  unfold RandomChar
  decide

/-! ## Codes and keys as functions of strings -/

/-- The digits of the authentication code. -/
def codeText (h : Hashes) (clientId serverId r1 : Bytes) : Bytes :=
  hexText (h.hmacMd5 (0x23 :: clientId ++ 0x40 :: serverId ++ [0x23]) r1).toList

/-- The digits of the key. -/
def keyText (h : Hashes) (r1 r2 : Bytes) : Bytes :=
  hexText (h.sha1 (r1 ++ r2)).toList

theorem length_hexText (md : Bytes) : (hexText md).length = 2 * md.length := by
  induction md with
  | nil => rfl
  | cons b md ih =>
      rw [hexText, List.flatMap_cons, List.length_append, ← hexText, ih]
      simp [hexOctet]
      omega

theorem hexDigit_ne_zero {k : ℕ} (hk : k < 16) : hexDigit k ≠ 0 := by
  revert k
  decide

theorem hexDigit_inj {j k : ℕ} (hj : j < 16) (hk : k < 16) (h : hexDigit j = hexDigit k) :
    j = k := by
  have hall : ∀ j < 16, ∀ k < 16, hexDigit j = hexDigit k → j = k := by decide
  exact hall j hj k hk h

theorem hexOctet_inj {a b : UInt8} (h : hexOctet a = hexOctet b) : a = b := by
  have ha : a.toNat < 256 := a.toNat_lt
  have hb : b.toNat < 256 := b.toNat_lt
  obtain ⟨hhigh, hlow⟩ := List.cons.inj h
  have hquot := hexDigit_inj (by omega) (by omega) hhigh
  have hrem := hexDigit_inj (by omega) (by omega) (List.cons.inj hlow).1
  exact UInt8.toNat_inj.mp (by omega)

theorem hexText_inj {a b : Bytes} (h : hexText a = hexText b) : a = b := by
  induction a generalizing b with
  | nil =>
      cases b with
      | nil => rfl
      | cons y b => cases h
  | cons x a ih =>
      cases b with
      | nil => cases h
      | cons y b =>
          rw [hexText, hexText, List.flatMap_cons, List.flatMap_cons] at h
          obtain ⟨hfirst, hrest⟩ := List.append_inj h rfl
          rw [hexOctet_inj hfirst, ih hrest]

theorem zero_notMem_hexText (md : Bytes) : 0 ∉ hexText md := by
  intro hzero
  obtain ⟨b, -, hb⟩ := List.mem_flatMap.mp hzero
  have hlt : b.toNat < 256 := b.toNat_lt
  rcases List.mem_pair.mp hb with h | h
  · exact hexDigit_ne_zero (by omega) h.symm
  · exact hexDigit_ne_zero (by omega) h.symm

theorem zero_notMem_codeText (h : Hashes) (clientId serverId r1 : Bytes) :
    0 ∉ codeText h clientId serverId r1 :=
  zero_notMem_hexText _

theorem zero_notMem_keyText (h : Hashes) (r1 r2 : Bytes) : 0 ∉ keyText h r1 r2 :=
  zero_notMem_hexText _

theorem length_codeText (h : Hashes) (clientId serverId r1 : Bytes) :
    (codeText h clientId serverId r1).length = 32 := by
  rw [codeText, length_hexText, Vector.length_toList]

theorem length_keyText (h : Hashes) (r1 r2 : Bytes) : (keyText h r1 r2).length = 40 := by
  rw [keyText, length_hexText, Vector.length_toList]

section Strings

variable {h : Hashes} {clientId serverId r1 r2 : Bytes}

theorem authenticationCode_eq (hclient : 0 ∈ clientId) (hserver : 0 ∈ serverId) (hr1 : 0 ∈ r1)
    (hlen : (cString clientId).length + (cString serverId).length < 1000) :
    authenticationCode h clientId serverId r1 =
      ok (codeText h (cString clientId) (cString serverId) (cString r1) ++ [0]) := by
  have hkey : 0 ∉ (0x23 :: cString clientId ++ 0x40 :: cString serverId ++ [0x23] : Bytes) := by
    have := zero_notMem_cString clientId
    have := zero_notMem_cString serverId
    simp_all
  have hfits : (0x23 :: cString clientId ++ 0x40 :: cString serverId ++ [0x23] : Bytes).length <
      1024 := by
    simp
    omega
  have hdigits := length_codeText h (cString clientId) (cString serverId) (cString r1)
  simp only [authenticationCode, stringAt, if_pos hclient, if_pos hserver, if_pos hr1, ok_bind,
    sprintf, if_pos hfits, cString_terminated hkey, printHex]
  rw [← codeText, if_pos (by omega)]

theorem agreedKey_eq (hr1 : 0 ∈ r1) (hr2 : 0 ∈ r2)
    (hlen : (cString r1).length + (cString r2).length < 1000) :
    agreedKey h r1 r2 = ok (keyText h (cString r1) (cString r2) ++ [0]) := by
  have hkey : 0 ∉ cString r1 ++ cString r2 := by
    simp [zero_notMem_cString]
  have hfits : (cString r1 ++ cString r2).length < 1024 := by
    rw [List.length_append]
    omega
  have hdigits := length_keyText h (cString r1) (cString r2)
  simp only [agreedKey, stringAt, if_pos hr1, if_pos hr2, ok_bind, sprintf, if_pos hfits,
    cString_terminated hkey, printHex]
  rw [← keyText, if_pos (by omega)]

end Strings

end SafeTransmission
