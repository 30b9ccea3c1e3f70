import SafeTransmission.Op.Building

/-!
# The text from which the key is made

`clientop` and `serverop` put `r1` and `r2` together in an array of 64 bytes, with two
characters in each turn of a loop that takes as many turns as both strings have characters.
So it stays inside the array if they have 32 characters in all.  What is hashed ends where the
first of the strings ends, which is behind all characters only if they have the same length,
or if `r1` has one more (`hashesBoth_iff`).

Both programs draw 30 characters.

## Strategy

* The bound is read off the loop: as many turns as characters, and two bytes in each
  (`textInside_eq_ok`).
* `interleaved` contains all characters exactly if the strings end together
  (`interleaved_perm_iff`), and then it determines both (`interleaved_inj`).
* Reads behind the fields do not matter, since no turn comes to them without leaving the array
  (`text_eq_textInside_of_ok`).
-/

namespace SafeTransmission

open Outcome

/-! ## Two strings in turn -/

section Interleaved

variable {s t s' t' : Bytes}

theorem length_interleaved (s t : Bytes) :
    (interleaved s t).length = min (2 * s.length) (2 * t.length + 1) := by
  fun_induction interleaved s t with
  | case1 => simp
  | case2 a s =>
      rw [List.length_singleton, List.length_cons, List.length_nil]
      omega
  | case3 a s b t ih =>
      simp only [List.length_cons]
      rw [ih]
      omega

theorem interleaved_perm (h : s.length = t.length ∨ s.length = t.length + 1) :
    (interleaved s t).Perm (s ++ t) := by
  induction s generalizing t with
  | nil =>
      obtain rfl : t = [] := List.length_eq_zero_iff.mp (by simpa [eq_comm] using h)
      exact .refl _
  | cons a s ih =>
      cases t with
      | nil =>
          obtain rfl : s = [] := List.length_eq_zero_iff.mp (by simpa using h)
          exact .refl _
      | cons b t =>
          have hrest : s.length = t.length ∨ s.length = t.length + 1 := by simpa using h
          rw [interleaved, List.cons_append]
          calc
            (a :: b :: interleaved s t).Perm (a :: b :: (s ++ t)) := ((ih hrest).cons b).cons a
            _ |>.Perm (a :: (s ++ b :: t)) := List.perm_middle.symm.cons a

/-- All characters are there exactly if the strings end together. -/
theorem interleaved_perm_iff : (interleaved s t).Perm (s ++ t) ↔
    s.length = t.length ∨ s.length = t.length + 1 := by
  refine ⟨fun hperm => ?_, interleaved_perm⟩
  have hlen := hperm.length_eq
  rw [length_interleaved, List.length_append] at hlen
  omega

/-- Strings that end together are seen from their characters in turn. -/
theorem interleaved_inj (h : s.length = t.length ∨ s.length = t.length + 1)
    (hs : s'.length = s.length) (ht : t'.length = t.length)
    (heq : interleaved s' t' = interleaved s t) : s' = s ∧ t' = t := by
  induction s generalizing t s' t' with
  | nil =>
      have hnil : t.length = 0 := by simpa [eq_comm] using h
      exact ⟨List.length_eq_zero_iff.mp hs, by
        rw [List.length_eq_zero_iff.mp hnil, List.length_eq_zero_iff.mp (ht.trans hnil)]⟩
  | cons a s ih =>
      obtain ⟨a', s', rfl⟩ := List.exists_cons_of_length_eq_add_one hs
      cases t with
      | nil =>
          obtain rfl : s = [] := List.length_eq_zero_iff.mp (by simpa using h)
          obtain rfl : s' = [] := List.length_eq_zero_iff.mp (by simpa using hs)
          obtain rfl : t' = [] := List.length_eq_zero_iff.mp ht
          exact ⟨heq, rfl⟩
      | cons b t =>
          obtain ⟨b', t', rfl⟩ := List.exists_cons_of_length_eq_add_one ht
          rw [interleaved, interleaved, List.cons.injEq, List.cons.injEq] at heq
          obtain ⟨rfl, rfl, heq⟩ := heq
          obtain ⟨rfl, rfl⟩ := ih (by simpa using h) (Nat.succ.inj hs) (Nat.succ.inj ht) heq
          exact ⟨rfl, rfl⟩

end Interleaved

/-! ## The messages of a program -/

/-- The two messages that a program has when it makes the key.  The random strings end inside
their fields. -/
structure KeyMessages where
  reqmsg : RequestMsg
  resmsg : RespondMsg
  r1_ends : 0 ∈ reqmsg.chars RequestMsg.r1.off RequestMsg.r1.cap
  r2_ends : 0 ∈ resmsg.chars RespondMsg.r2.off RespondMsg.r2.cap

namespace KeyMessages

def r1 (msgs : KeyMessages) : Bytes :=
  msgs.reqmsg.str RequestMsg.r1.off

def r2 (msgs : KeyMessages) : Bytes :=
  msgs.resmsg.str RespondMsg.r2.off

/-- The text that is hashed. -/
def text (msgs : KeyMessages) : Outcome Bytes :=
  compose composeSize (msgs.reqmsg.ptr RequestMsg.r1.off) (msgs.resmsg.ptr RespondMsg.r2.off)

/-- The same loop, where reading behind the fields `r1` and `r2` is an undefined step too. -/
def textInside (msgs : KeyMessages) : Outcome Bytes :=
  compose composeSize (msgs.reqmsg.chars RequestMsg.r1.off RequestMsg.r1.cap)
    (msgs.resmsg.chars RespondMsg.r2.off RespondMsg.r2.cap)

end KeyMessages

/-- The loop of either program writes inside its array only, and reads inside `r1` and `r2` only;
both hash the same text, which has all characters of both strings, so that it is another one if
some of them are. -/
structure HashesBoth (client server : KeyMessages) : Prop where
  inside : ∃ text, client.textInside = ok text ∧ server.textInside = ok text
  same : ∃ text, client.text = ok text ∧ server.text = ok text
  complete : ∀ text, client.text = ok text → text.Perm (client.r1 ++ client.r2)
  sensitive : ∀ other : KeyMessages, other.r1.length = client.r1.length →
    other.r2.length = client.r2.length → ¬(other.r1 = client.r1 ∧ other.r2 = client.r2) →
      other.text ≠ client.text

namespace KeyMessages

variable {msgs client server : KeyMessages} {text : Bytes}

/-- Inside the fields the array alone sets a bound. -/
theorem textInside_eq_ok : msgs.textInside = ok text ↔
    (msgs.r1.length + msgs.r2.length) * 2 ≤ composeSize ∧ text = interleaved msgs.r1 msgs.r2 := by
  have hr1 : cString (msgs.reqmsg.chars RequestMsg.r1.off RequestMsg.r1.cap) = msgs.r1 :=
    cString_take msgs.r1_ends
  have hr2 : cString (msgs.resmsg.chars RespondMsg.r2.off RespondMsg.r2.cap) = msgs.r2 :=
    cString_take msgs.r2_ends
  have hlen1 : (msgs.reqmsg.chars RequestMsg.r1.off RequestMsg.r1.cap).length = 64 :=
    msgs.reqmsg.length_chars (by decide)
  have hlen2 : (msgs.resmsg.chars RespondMsg.r2.off RespondMsg.r2.cap).length = 64 :=
    msgs.resmsg.length_chars (by decide)
  rw [textInside, compose_eq_ok (by decide), hr1, hr2, hlen1, hlen2, composeSize]
  constructor
  · rintro ⟨-, -, -, hfits, htext⟩
    exact ⟨hfits, htext⟩
  · rintro ⟨hfits, htext⟩
    exact ⟨msgs.r1_ends, msgs.r2_ends, by omega, hfits, htext⟩

/-- Behind the fields there are bytes to read, but no turn of the loop comes to them. -/
theorem text_eq_textInside_of_ok (h : msgs.textInside = ok text) : msgs.text = ok text := by
  obtain ⟨hfits, htext⟩ := textInside_eq_ok.mp h
  have hr1 : cString (msgs.reqmsg.ptr RequestMsg.r1.off) = msgs.r1 := rfl
  have hr2 : cString (msgs.resmsg.ptr RespondMsg.r2.off) = msgs.r2 := rfl
  have hlen1 : 64 ≤ (msgs.reqmsg.ptr RequestMsg.r1.off).length := by
    rw [CObject.length_ptr]
    decide
  have hlen2 : 64 ≤ (msgs.resmsg.ptr RespondMsg.r2.off).length := by
    rw [CObject.length_ptr]
    decide
  have hsize : composeSize = 64 := rfl
  refine (compose_eq_ok (by decide)).mpr
    ⟨List.mem_of_mem_take msgs.r1_ends, List.mem_of_mem_take msgs.r2_ends, ?_, ?_, ?_⟩
  · rw [hr1, hr2]
    omega
  · rwa [hr1, hr2]
  · rwa [hr1, hr2]

theorem eq_interleaved (h : msgs.text = ok text) : text = interleaved msgs.r1 msgs.r2 := by
  obtain ⟨-, -, -, -, htext⟩ := (compose_eq_ok (by decide)).mp h
  exact htext

end KeyMessages

open KeyMessages

/-- Both programs hash the same text with all characters, and stay inside, exactly if `r1` and
`r2` have at most 32 characters in all, and the same length, or one more in `r1`. -/
theorem hashesBoth_iff {client server : KeyMessages} (hr1 : client.r1 = server.r1)
    (hr2 : client.r2 = server.r2) : HashesBoth client server ↔
      client.r1.length + client.r2.length ≤ 32 ∧
        (client.r1.length = client.r2.length ∨ client.r1.length = client.r2.length + 1) := by
  have hsize : composeSize = 64 := rfl
  constructor
  · rintro ⟨⟨text, hclient, -⟩, -, hcomplete, -⟩
    obtain ⟨hfits, rfl⟩ := textInside_eq_ok.mp hclient
    have hperm := hcomplete _ (text_eq_textInside_of_ok hclient)
    exact ⟨by omega, interleaved_perm_iff.mp hperm⟩
  · rintro ⟨hfits, hends⟩
    have hclient : client.textInside = ok (interleaved client.r1 client.r2) :=
      textInside_eq_ok.mpr ⟨by omega, rfl⟩
    have hserver : server.textInside = ok (interleaved client.r1 client.r2) :=
      textInside_eq_ok.mpr ⟨by rw [← hr1, ← hr2]; omega, by rw [hr1, hr2]⟩
    have htext := text_eq_textInside_of_ok hclient
    refine ⟨⟨_, hclient, hserver⟩, ⟨_, htext, text_eq_textInside_of_ok hserver⟩, ?_, ?_⟩
    · intro text h
      rw [eq_interleaved h]
      exact interleaved_perm hends
    · intro other hlen1 hlen2 hne heq
      have hsame := eq_interleaved (heq.trans htext)
      exact hne (interleaved_inj hends hlen1 hlen2 hsame.symm)

/-- The loop reads nothing behind the NULs of the two strings only if they have one character at
most. -/
theorem exists_compose_strings_iff {s t : Bytes} (hs : 0 ∉ s) (ht : 0 ∉ t) :
    (∃ text, compose composeSize (s ++ [0]) (t ++ [0]) = ok text) ↔ s.length ≤ 1 ∧ t.length ≤ 1 := by
  have hsize : composeSize = 64 := rfl
  simp only [compose_eq_ok (show 0 < composeSize by decide), cString_terminated hs,
    cString_terminated ht, List.length_append, List.length_singleton]
  constructor
  · rintro ⟨text, -, -, hreads, -⟩
    omega
  · intro hlens
    exact ⟨_, by simp, by simp, by omega, by omega, rfl⟩

theorem zero_mem_field {s rest : Bytes} (hs : s.length < 64) : 0 ∈ (s ++ 0 :: rest).take 64 := by
  rw [List.take_append, List.take_of_length_le hs.le]
  obtain ⟨k, hk⟩ := Nat.exists_eq_add_of_lt hs
  rw [hk, Nat.add_assoc, Nat.add_sub_cancel_left]
  simp

/-- Messages with the two strings, in memory that held `fill`. -/
def KeyMessages.ofStrings (fill : UInt8) (s t : Bytes) (hs : s.length < 64) (ht : t.length < 64) :
    KeyMessages where
  reqmsg := ⟨List.replicate 93 fill ++ (s ++ 0 :: List.replicate (66 - s.length) fill), by
    simp
    omega⟩
  resmsg := ⟨List.replicate 28 fill ++ (t ++ 0 :: List.replicate (67 - t.length) fill), by
    simp
    omega⟩
  r1_ends := by
    have hdrop : RequestMsg.r1.off = (List.replicate 93 fill).length := rfl
    rw [CObject.chars, CObject.ptr, hdrop, List.drop_left]
    exact zero_mem_field hs
  r2_ends := by
    have hdrop : RespondMsg.r2.off = (List.replicate 28 fill).length := rfl
    rw [CObject.chars, CObject.ptr, hdrop, List.drop_left]
    exact zero_mem_field ht

/-- The messages of one of the programs, with the most characters that fit. -/
def sixteenEach (fill : UInt8) : KeyMessages :=
  .ofStrings fill ((List.range 16).map fun i => 0x30 + .ofNat (i % 10))
    ((List.range 16).map fun i => 0x61 + .ofNat i) (by decide) (by decide)

theorem hashesBoth_sixteenEach : HashesBoth (sixteenEach 0) (sixteenEach 0xaa) :=
  (hashesBoth_iff (by decide +kernel) (by decide +kernel)).mpr (by decide +kernel)

/-- Strings as both programs draw them. -/
def thirtyEach : KeyMessages :=
  .ofStrings 0 (List.replicate 30 0x30) (List.replicate 30 0x61) (by decide) (by decide)

/-- The loop leaves the array when `i` is 32, and goes on to 59. -/
theorem not_hashesBoth_thirtyEach : ¬HashesBoth thirtyEach thirtyEach := by
  rintro ⟨⟨text, hinside, -⟩, -⟩
  have hfits := (textInside_eq_ok.mp hinside).1
  revert hfits
  decide

end SafeTransmission
