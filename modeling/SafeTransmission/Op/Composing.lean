import SafeTransmission.Agreement.Building
import SafeTransmission.Op.Operations

/-!
# Strings and digests of `clientop` and `serverop`

The data of the authentication code are the four strings one after the other
(`authData_eq_ok`).  The loop over `r1r2` is given by the characters behind the pointers, also
those behind the NUL of the shorter string, and its string is `interleaved`: the two strings in
turn, up to the first NUL (`compose_eq_ok`).

## Strategy

* A turn of the loop over `r1r2` writes two bytes at the place of the turn (`overwrite_pair`).  By
  induction the array holds the bytes of both pointers in turn (`composeLoop_eq_ok`).
* The string in it ends at the first NUL, which is that of the shorter string (`cString_weave`).
* `sprintf` writes two or eight digits and a NUL, and the next turn overwrites all but the first two
  (`printLoop_eq`).  What is left is `signedText`.
-/

namespace SafeTransmission

open Outcome

/-! ## Strings one after the other -/

theorem stringAt_eq_ok {p s : Bytes} : stringAt p = ok s ↔ 0 ∈ p ∧ s = cString p := by
  rw [stringAt, guard_eq_ok]

theorem strlen_eq_ok {p : Bytes} {k : ℕ} : strlen p = ok k ↔ 0 ∈ p ∧ k = (cString p).length := by
  rw [strlen, guard_eq_ok]

theorem strcat_eq_ok {cap : ℕ} {text p text' : Bytes} : strcat cap text p = ok text' ↔
    0 ∈ p ∧ text.length + (cString p).length < cap ∧ text' = text ++ cString p := by
  rw [strcat, bind_eq_ok]
  constructor
  · rintro ⟨s, hs, hcat⟩
    obtain ⟨hp, rfl⟩ := stringAt_eq_ok.mp hs
    exact ⟨hp, guard_eq_ok.mp hcat⟩
  · rintro ⟨hp, hfits, rfl⟩
    exact ⟨cString p, stringAt_eq_ok.mpr ⟨hp, rfl⟩, if_pos hfits⟩

/-- The data of the authentication code are the four strings, if they fit. -/
theorem authData_eq_ok {c s r k data : Bytes} : authData c s r k = ok data ↔
    0 ∈ c ∧ 0 ∈ s ∧ 0 ∈ r ∧ 0 ∈ k ∧
      (cString c).length + (cString s).length + (cString r).length + (cString k).length < 128 ∧
      data = cString c ++ (cString s ++ cString r) ++ cString k := by
  simp only [authData, bind_eq_ok, strcat_eq_ok, List.nil_append, List.length_nil, Nat.zero_add]
  constructor
  · rintro ⟨_, ⟨hc, -, rfl⟩, _, ⟨hs, -, rfl⟩, _, ⟨hr, -, rfl⟩, hk, hfits, rfl⟩
    simp only [List.length_append] at hfits
    refine ⟨hc, hs, hr, hk, hfits, ?_⟩
    rw [List.append_assoc (cString c)]
  · rintro ⟨hc, hs, hr, hk, hfits, rfl⟩
    refine ⟨_, ⟨hc, by omega, rfl⟩, _, ⟨hs, ?_, rfl⟩, _, ⟨hr, ?_, rfl⟩, hk, ?_, ?_⟩
    · omega
    · rw [List.length_append]
      omega
    · rw [List.length_append, List.length_append]
      omega
    · simp only [List.append_assoc]

theorem strcmp_eq_ok_zero {p q : Bytes} :
    strcmp p q = ok 0 ↔ 0 ∈ p ∧ 0 ∈ q ∧ cString p = cString q := by
  constructor
  · intro hcmp
    induction p generalizing q with
    | nil => cases hcmp
    | cons a p ih =>
        cases q with
        | nil => cases hcmp
        | cons b q =>
            rw [strcmp] at hcmp
            split at hcmp
            · rename_i hne
              refine absurd (UInt8.toNat_inj.mp ?_) hne
              have hzero := ok.inj hcmp
              omega
            · rename_i heq
              obtain rfl := not_not.mp heq
              split at hcmp
              · rename_i hzero
                rw [hzero, cString_zero_cons, cString_zero_cons]
                exact ⟨List.mem_cons_self, List.mem_cons_self, rfl⟩
              · rename_i hzero
                obtain ⟨hp, hq, htext⟩ := ih hcmp
                rw [cString_cons hzero, cString_cons hzero, htext]
                exact ⟨List.mem_cons_of_mem _ hp, List.mem_cons_of_mem _ hq, rfl⟩
  · rintro ⟨hp, hq, htext⟩
    obtain ⟨v, hcmp, hzero⟩ := strcmp_eq hp hq
    rw [hcmp, hzero.mpr htext]

/-! ## Drawn characters -/

@[simp] theorem length_drawn (span first : ℕ) (rand : ℕ → ℕ) :
    (drawn span first rand).length = drawnChars := by
  simp [drawn]

theorem zero_notMem_drawn {span first : ℕ} (hspan : 0 < span) (hfirst : 0 < first)
    (hlast : first + span ≤ 256) (rand : ℕ → ℕ) : 0 ∉ drawn span first rand := by
  intro hzero
  obtain ⟨i, -, hi⟩ := List.mem_map.mp hzero
  have hmod : rand i % span < span := Nat.mod_lt _ hspan
  have hnat := congrArg UInt8.toNat hi
  rw [UInt8.toNat_ofNat', Nat.mod_eq_of_lt (by omega)] at hnat
  simp at hnat
  omega

/-! ## Two strings in turn -/

/-- The elements of two lists of one length in turn. -/
def weave : Bytes → Bytes → Bytes
  | a :: p, b :: q => a :: b :: weave p q
  | _, _ => []

/-- The characters of two strings in turn, up to the end of the shorter one. -/
def interleaved : Bytes → Bytes → Bytes
  | [], _ => []
  | a :: _, [] => [a]
  | a :: s, b :: t => a :: b :: interleaved s t

theorem length_weave {p q : Bytes} (h : p.length = q.length) : (weave p q).length = p.length * 2 := by
  induction p generalizing q with
  | nil => rw [weave.eq_2 _ _ (by simp)]; rfl
  | cons a p ih =>
      cases q with
      | nil => cases h
      | cons b q =>
          rw [weave, List.length_cons, List.length_cons, ih (Nat.succ.inj h), List.length_cons]
          omega

theorem cString_weave {p q : Bytes} (hlen : p.length = q.length) (hends : 0 ∈ p ∨ 0 ∈ q)
    (rest : Bytes) : cString (weave p q ++ rest) = interleaved (cString p) (cString q) := by
  induction p generalizing q with
  | nil =>
      rw [List.length_eq_zero_iff.mp hlen.symm] at hends
      simp at hends
  | cons a p ih =>
      cases q with
      | nil => cases hlen
      | cons b q =>
          rw [weave, List.cons_append, List.cons_append]
          by_cases ha : a = 0
          · rw [ha, cString_zero_cons, cString_zero_cons, interleaved]
          · rw [cString_cons ha, cString_cons ha]
            by_cases hb : b = 0
            · rw [hb, cString_zero_cons, cString_zero_cons, interleaved]
            · have hrest : 0 ∈ p ∨ 0 ∈ q := by
                rcases hends with hp | hq
                · exact Or.inl ((List.mem_cons.mp hp).resolve_left (Ne.symm ha))
                · exact Or.inr ((List.mem_cons.mp hq).resolve_left (Ne.symm hb))
              rw [cString_cons hb, cString_cons hb, interleaved, ih (Nat.succ.inj hlen) hrest]

theorem byteAt_eq_ok {p : Bytes} {i : ℕ} {b : UInt8} : byteAt p i = ok b ↔ p[i]? = some b := by
  rw [byteAt]
  cases p[i]? with
  | none => exact iff_of_false nofun nofun
  | some a => rw [ok.injEq, Option.some.injEq]

theorem overwrite_overwrite {block d e : Bytes} {off : ℕ} (hoff : off ≤ block.length) :
    overwrite (overwrite block off d) (off + d.length) e = overwrite block off (d ++ e) := by
  have hlen : (block.take off ++ d).length = off + d.length := by
    rw [List.length_append, List.length_take, Nat.min_eq_left hoff]
  rw [overwrite, overwrite, overwrite, ← hlen, List.take_left, ← List.drop_drop, List.drop_left,
    hlen, List.drop_drop, List.length_append, Nat.add_assoc, List.append_assoc _ d e]

theorem take_drop_succ {p : Bytes} {i : ℕ} {a : UInt8} (h : p[i]? = some a) (n : ℕ) :
    (p.drop i).take (n + 1) = a :: (p.drop (i + 1)).take n := by
  obtain ⟨hi, rfl⟩ := List.getElem?_eq_some_iff.mp h
  rw [List.drop_eq_getElem_cons hi, List.take_succ_cons]

theorem overwrite_pair {block e : Bytes} {a b : UInt8} {i : ℕ} (hi : i * 2 ≤ block.length) :
    overwrite (overwrite (overwrite block (i * 2) [a]) (i * 2 + 1) [b]) ((i + 1) * 2) e =
      overwrite block (i * 2) (a :: b :: e) := by
  have hpair : overwrite (overwrite block (i * 2) [a]) (i * 2 + 1) [b] =
      overwrite block (i * 2) [a, b] := overwrite_overwrite (d := [a]) hi
  have hnext : (i + 1) * 2 = i * 2 + [a, b].length := Nat.succ_mul i 2
  rw [hpair, hnext, overwrite_overwrite hi]
  rfl

/-- What the loop leaves: the bytes in turn, between those before and behind. -/
theorem composeLoop_eq_ok {size : ℕ} {r1 r2 : Bytes} {i n : ℕ} {o o' : CObject size}
    (hi : i * 2 ≤ size) : composeLoop r1 r2 i n o = ok o' ↔
      (n = 0 ∨ i + n ≤ r1.length ∧ i + n ≤ r2.length) ∧ (i + n) * 2 ≤ size ∧
      o'.bytes = overwrite o.bytes (i * 2) (weave ((r1.drop i).take n) ((r2.drop i).take n)) := by
  induction n generalizing i o with
  | zero =>
      have hnothing : overwrite o.bytes (i * 2) [] = o.bytes := by
        simp [overwrite]
      rw [composeLoop, ok.injEq, List.take_zero, List.take_zero, weave.eq_2 _ _ (by simp), hnothing,
        CObject.ext_iff]
      simp only [true_or, true_and, Nat.add_zero, hi]
      exact eq_comm
  | succ n ih =>
      have hlen : i * 2 ≤ o.bytes.length := by rwa [o.length_eq]
      constructor
      · intro hloop
        rw [composeLoop] at hloop
        obtain ⟨a, ha, hloop⟩ := bind_eq_ok.mp hloop
        obtain ⟨o₁, hstore₁, hloop⟩ := bind_eq_ok.mp hloop
        obtain ⟨b, hb, hloop⟩ := bind_eq_ok.mp hloop
        obtain ⟨o₂, hstore₂, hloop⟩ := bind_eq_ok.mp hloop
        obtain ⟨-, hbytes₁⟩ := CObject.store_eq_ok.mp hstore₁
        obtain ⟨hinside, hbytes₂⟩ := CObject.store_eq_ok.mp hstore₂
        rw [List.length_singleton] at hinside
        -- two reads and two stores, and then the other turns
        obtain ⟨hreads, hfits, hbytes⟩ := (ih (by omega)).mp hloop
        rw [byteAt_eq_ok] at ha hb
        have hr1 := (List.getElem?_eq_some_iff.mp ha).1
        have hr2 := (List.getElem?_eq_some_iff.mp hb).1
        refine ⟨Or.inr (by omega), by omega, ?_⟩
        rw [hbytes, hbytes₂, hbytes₁, take_drop_succ ha, take_drop_succ hb, weave, overwrite_pair hlen]
      · rintro ⟨hreads, hfits, hbytes⟩
        obtain ⟨hr1, hr2⟩ := hreads.resolve_left (Nat.succ_ne_zero n)
        have ha : r1[i]? = some r1[i] := List.getElem?_eq_getElem (by omega)
        have hb : r2[i]? = some r2[i] := List.getElem?_eq_getElem (by omega)
        obtain ⟨o₁, hstore₁⟩ := o.exists_store (show i * 2 + [r1[i]].length ≤ size by simp; omega)
        obtain ⟨o₂, hstore₂⟩ := o₁.exists_store (show i * 2 + 1 + [r2[i]].length ≤ size by simp; omega)
        obtain ⟨-, hbytes₁⟩ := CObject.store_eq_ok.mp hstore₁
        obtain ⟨-, hbytes₂⟩ := CObject.store_eq_ok.mp hstore₂
        rw [composeLoop, byteAt_eq_ok.mpr ha, ok_bind, hstore₁, ok_bind, byteAt_eq_ok.mpr hb, ok_bind,
          hstore₂, ok_bind]
        refine (ih (by omega)).mpr ⟨Or.inr (by omega), by omega, ?_⟩
        rw [hbytes, hbytes₂, hbytes₁, take_drop_succ ha, take_drop_succ hb, weave, overwrite_pair hlen]

/-- The characters of a string that are among the first `k` bytes. -/
theorem cString_take_of_le {p : Bytes} {k : ℕ} (h : (cString p).length ≤ k) :
    cString (p.take k) = cString p := by
  rw [cString, ← List.take_takeWhile, ← cString, List.take_of_length_le h]

/-- A string that ends behind fewer than `k` bytes has its NUL among the first `k` bytes. -/
theorem zero_mem_take {p : Bytes} {k : ℕ} (hp : 0 ∈ p) (h : (cString p).length < k) :
    0 ∈ p.take k := by
  obtain ⟨s, rest, rfl, hs⟩ := List.eq_append_cons_of_mem hp
  rw [cString_terminated hs] at h
  obtain ⟨j, rfl⟩ := Nat.exists_eq_add_of_lt h
  rw [Nat.add_assoc, List.take_length_add_append]
  simp

theorem zero_mem_weave {p q : Bytes} (hlen : p.length = q.length) (hends : 0 ∈ p ∨ 0 ∈ q) :
    0 ∈ weave p q := by
  induction p generalizing q with
  | nil =>
      rw [List.length_eq_zero_iff.mp hlen.symm] at hends
      simp at hends
  | cons a p ih =>
      cases q with
      | nil => cases hlen
      | cons b q =>
          rw [weave]
          by_cases hfirst : 0 = a ∨ 0 = b
          · rcases hfirst with rfl | rfl <;> simp
          · have hrest : 0 ∈ p ∨ 0 ∈ q := by
              simp only [List.mem_cons] at hends
              tauto
            exact List.mem_cons_of_mem _ (List.mem_cons_of_mem _ (ih (Nat.succ.inj hlen) hrest))

section Composing

variable {size : ℕ} {r1 r2 text : Bytes} (hsize : 0 < size)
include hsize

theorem cString_composed (hr1 : 0 ∈ r1) (hr2 : 0 ∈ r2) {k : ℕ}
    (hk : k = (cString r1).length + (cString r2).length) (hlen1 : k ≤ r1.length)
    (hlen2 : k ≤ r2.length) {o : CObject size}
    (ho : o.bytes = overwrite (CObject.zero size).bytes 0 (weave (r1.take k) (r2.take k))) :
    0 ∈ o.ptr 0 ∧ cString (o.ptr 0) = interleaved (cString r1) (cString r2) := by
  have hptr : o.ptr 0 = weave (r1.take k) (r2.take k) ++
      (List.replicate size 0).drop (weave (r1.take k) (r2.take k)).length := by
    rw [CObject.ptr, List.drop_zero, ho, overwrite_zero]
    rfl
  rw [hptr]
  have htakes : (r1.take k).length = (r2.take k).length := by
    rw [List.length_take_of_le hlen1, List.length_take_of_le hlen2]
  by_cases hzero : k = 0
  · have h1 : cString r1 = [] := List.length_eq_zero_iff.mp (by omega)
    have h2 : cString r2 = [] := List.length_eq_zero_iff.mp (by omega)
    obtain ⟨n, rfl⟩ := Nat.exists_eq_add_of_lt hsize
    rw [h1, h2, hzero, List.take_zero, List.take_zero, weave.eq_2 _ _ (by simp), List.nil_append,
      List.length_nil, List.drop_zero, List.replicate_succ, cString_zero_cons, interleaved]
    exact ⟨List.mem_cons_self, rfl⟩
  · -- one of the strings has fewer than `k` characters
    have hends : 0 ∈ r1.take k ∨ 0 ∈ r2.take k := by
      by_cases hshort : (cString r1).length < k
      · exact Or.inl (zero_mem_take hr1 hshort)
      · exact Or.inr (zero_mem_take hr2 (by omega))
    refine ⟨List.mem_append_left _ (zero_mem_weave htakes hends), ?_⟩
    rw [cString_weave htakes hends, cString_take_of_le (by omega), cString_take_of_le (by omega)]

/-- The string in `r1r2` is made of the two strings in turn.  The loop reads as many bytes behind
each pointer as both strings have characters. -/
theorem compose_eq_ok : compose size r1 r2 = ok text ↔ 0 ∈ r1 ∧ 0 ∈ r2 ∧
    ((cString r1).length + (cString r2).length ≤ r1.length ∧
      (cString r1).length + (cString r2).length ≤ r2.length) ∧
    ((cString r1).length + (cString r2).length) * 2 ≤ size ∧
    text = interleaved (cString r1) (cString r2) := by
  rw [compose]
  simp only [bind_eq_ok, strlen_eq_ok, stringAt_eq_ok]
  constructor
  · rintro ⟨k1, ⟨hr1, rfl⟩, k2, ⟨hr2, rfl⟩, o, hloop, -, rfl⟩
    obtain ⟨hreads, hfits, hbytes⟩ := (composeLoop_eq_ok (Nat.zero_le size)).mp hloop
    have hlens : (cString r1).length + (cString r2).length ≤ r1.length ∧
        (cString r1).length + (cString r2).length ≤ r2.length := by omega
    refine ⟨hr1, hr2, hlens, by omega, ?_⟩
    exact (cString_composed hsize hr1 hr2 rfl hlens.1 hlens.2 hbytes).2
  · rintro ⟨hr1, hr2, hlens, hfits, rfl⟩
    have hinside : 0 + (weave (r1.take ((cString r1).length + (cString r2).length))
        (r2.take ((cString r1).length + (cString r2).length))).length ≤ size := by
      rw [length_weave, List.length_take_of_le hlens.1]
      · omega
      · rw [List.length_take_of_le hlens.1, List.length_take_of_le hlens.2]
    obtain ⟨o, hstore⟩ := (CObject.zero size).exists_store hinside
    obtain ⟨-, hbytes⟩ := CObject.store_eq_ok.mp hstore
    obtain ⟨hends, htext⟩ := cString_composed hsize hr1 hr2 rfl hlens.1 hlens.2 hbytes
    refine ⟨_, ⟨hr1, rfl⟩, _, ⟨hr2, rfl⟩, o, ?_, hends, htext.symm⟩
    exact (composeLoop_eq_ok (Nat.zero_le size)).mpr ⟨Or.inr (by omega), by omega, hbytes⟩

end Composing

/-! ## Printed digests -/

/-- What a loop over signed octets leaves as a string: two digits for each octet, and all digits
for the last one. -/
def signedText : Bytes → Bytes
  | [] => []
  | [b] => signedOctet b
  | b :: b' :: md => (signedOctet b).take 2 ++ signedText (b' :: md)

/-- The digits of `render` are printed, and nothing else is changed but bytes behind them. -/
structure Md5Hex.Renders (h : Md5Hex) (render : Bytes → Bytes) : Prop where
  zero_notMem : ∀ data, 0 ∉ render data
  length_le : ∀ data, (render data).length ≤ 38
  print_eq : ∀ {n : ℕ} (o : CObject n) (off : ℕ) (data : Bytes), off + 39 ≤ n →
    ∃ o', h.print o off data = ok o' ∧ o'.Holds off (render data ++ [0]) ∧
      ∀ k cap, k + cap ≤ off ∨ off + 39 ≤ k → o'.chars k cap = o.chars k cap

theorem Md5Hex.renders_ofText (f : HexText) : (ofText f).Renders f.text where
  zero_notMem := f.zero_notMem
  length_le data := by
    rw [f.length_eq]
    norm_num
  print_eq o off data hfits := by
    have hlen : (f.text data ++ [0]).length = 33 := by
      rw [List.length_append, f.length_eq, List.length_singleton]
    obtain ⟨o', hstore⟩ := o.exists_store (show off + (f.text data ++ [0]).length ≤ _ by omega)
    refine ⟨o', hstore, CObject.holds_store_self hstore, fun k cap hapart => ?_⟩
    exact CObject.chars_store_of_apart hstore (by omega)

theorem zero_notMem_signedOctet (b : UInt8) : 0 ∉ signedOctet b := by
  have hdigits : 0 ∉ hexOctet b := by
    have hall := zero_notMem_hexText [b]
    rwa [hexText, List.flatMap_singleton] at hall
  rw [signedOctet]
  split
  · exact hdigits
  · intro hmem
    rcases List.mem_append.mp hmem with hmem | hmem
    · exact absurd (List.eq_of_mem_replicate hmem) (by decide)
    · exact hdigits hmem

theorem length_signedOctet (b : UInt8) :
    (signedOctet b).length = if b < 0x80 then 2 else 8 := by
  rw [signedOctet]
  split <;> rfl

theorem zero_notMem_signedText (md : Bytes) : 0 ∉ signedText md := by
  fun_induction signedText md with
  | case1 => exact List.not_mem_nil
  | case2 b => exact zero_notMem_signedOctet b
  | case3 b b' md ih =>
      intro hmem
      rcases List.mem_append.mp hmem with hmem | hmem
      · exact zero_notMem_signedOctet b (List.mem_of_mem_take hmem)
      · exact ih hmem

theorem length_signedText_le {md : Bytes} : (signedText md).length ≤ 2 * md.length + 6 := by
  fun_induction signedText md with
  | case1 => exact Nat.zero_le _
  | case2 b =>
      rw [length_signedOctet, List.length_singleton]
      split <;> norm_num
  | case3 b b' md ih =>
      rw [List.length_append, List.length_take, List.length_cons]
      omega

theorem CObject.Holds.append {n : ℕ} {o : CObject n} {off : ℕ} {d e : Bytes} (hd : o.Holds off d)
    (he : o.Holds (off + d.length) e) : o.Holds off (d ++ e) := by
  have hfirst : (o.bytes.drop off).take d.length = d := hd
  have hsecond : (o.bytes.drop (off + d.length)).take e.length = e := he
  rw [Holds, chars, ptr, List.length_append, List.take_add, hfirst, List.drop_drop, hsecond]

theorem exists_printLoop_iff {n : ℕ} {md : Bytes} {off : ℕ} {o : CObject n} :
    (∃ o', printLoop off md o = ok o') ↔
      ∀ i b, md[i]? = some b → off + 2 * i + (signedOctet b).length + 1 ≤ n := by
  induction md generalizing off o with
  | nil => exact iff_of_true ⟨o, rfl⟩ nofun
  | cons b md ih =>
      constructor
      · rintro ⟨o', hloop⟩ i c hc
        obtain ⟨o₁, hstore, hloop⟩ := bind_eq_ok.mp hloop
        cases i with
        | zero =>
            obtain ⟨hinside, -⟩ := CObject.store_eq_ok.mp hstore
            rw [List.length_append, List.length_singleton] at hinside
            obtain rfl : b = c := Option.some.inj hc
            omega
        | succ i =>
            have hrest := ih.mp ⟨o', hloop⟩ i c hc
            omega
      · intro hall
        have hfirst := hall 0 b rfl
        obtain ⟨o₁, hstore⟩ := o.exists_store (show off + (signedOctet b ++ [0]).length ≤ n by
          rw [List.length_append, List.length_singleton]; omega)
        rw [printLoop, hstore, ok_bind]
        refine ih.mpr fun i c hc => ?_
        have hnext := hall (i + 1) c hc
        omega

/-- What the loop leaves: its text, and the bytes in front of it and from seven behind it on. -/
theorem printLoop_inv {n : ℕ} {md : Bytes} {off : ℕ} {o o' : CObject n}
    (hloop : printLoop off md o = ok o') : (md ≠ [] → o'.Holds off (signedText md ++ [0])) ∧
      ∀ k cap, k + cap ≤ off ∨ off + 2 * md.length + 7 ≤ k → o'.chars k cap = o.chars k cap := by
  induction md generalizing off o with
  | nil =>
      cases hloop
      exact ⟨fun hmd => absurd rfl hmd, fun _ _ _ => rfl⟩
  | cons b md ih =>
      obtain ⟨o₁, hstore, hloop⟩ := bind_eq_ok.mp hloop
      obtain ⟨hrest, hkept⟩ := ih hloop
      have hheld := CObject.holds_store_self hstore
      have hlen : (signedOctet b ++ [0]).length ≤ 9 := by
        rw [List.length_append, length_signedOctet, List.length_singleton]
        split <;> norm_num
      rw [List.length_cons]
      refine ⟨fun _ => ?_, fun k cap hapart => ?_⟩
      · cases md with
        | nil =>
            cases hloop
            exact hheld
        | cons b' md =>
            -- the next turn writes over what is behind the first two digits
            have htwo : ((signedOctet b).take 2).length = 2 := by
              rw [List.length_take, length_signedOctet]
              split <;> rfl
            have hdigits : o₁.Holds off ((signedOctet b).take 2) := by
              have htake := hheld.take 2
              rwa [List.take_append_of_le_length] at htake
              rw [length_signedOctet]
              split <;> norm_num
            have hfirst : o'.Holds off ((signedOctet b).take 2) := by
              rw [CObject.Holds, hkept _ _ (Or.inl (by omega))]
              exact hdigits
            rw [signedText, List.append_assoc]
            exact hfirst.append (by
              rw [htwo]
              exact hrest (List.cons_ne_nil b' md))
      · rw [hkept k cap (by omega)]
        exact CObject.chars_store_of_apart hstore (by omega)

/-- The loop leaves its text, and changes bytes up to six behind it. -/
theorem printLoop_eq {n : ℕ} {md : Bytes} (hmd : md ≠ []) {off : ℕ} {o : CObject n}
    (hfits : off + 2 * md.length + 7 ≤ n) :
    ∃ o', printLoop off md o = ok o' ∧ o'.Holds off (signedText md ++ [0]) ∧
      ∀ k cap, k + cap ≤ off ∨ off + 2 * md.length + 7 ≤ k → o'.chars k cap = o.chars k cap := by
  have hinside : ∀ i b, md[i]? = some b → off + 2 * i + (signedOctet b).length + 1 ≤ n := by
    intro i b hi
    have hlt := (List.getElem?_eq_some_iff.mp hi).1
    rw [length_signedOctet]
    split <;> omega
  obtain ⟨o', hloop⟩ := (@exists_printLoop_iff n md off o).mpr hinside
  obtain ⟨hheld, hkept⟩ := printLoop_inv hloop
  exact ⟨o', hloop, hheld hmd, hkept⟩

theorem Md5Hex.renders_signed (md5 : Bytes → Vector UInt8 16) :
    (signed md5).Renders fun data => signedText (md5 data).toList where
  zero_notMem data := zero_notMem_signedText _
  length_le data := by
    have hle := @length_signedText_le (md5 data).toList
    rwa [Vector.length_toList] at hle
  print_eq o off data hfits := by
    have hlen : (md5 data).toList.length = 16 := Vector.length_toList
    have hne : (md5 data).toList ≠ [] := List.ne_nil_of_length_pos (by omega)
    obtain ⟨o', hloop, hheld, hkept⟩ := @printLoop_eq _ _ hne off o (by omega)
    exact ⟨o', hloop, hheld, fun k cap hapart => hkept k cap (by omega)⟩

/-- The last 32 bytes of a text, with the digit `0` for NULs and for missing bytes. -/
def lastBytes : HexText where
  text data := List.ofFn fun i : Fin 32 =>
    if data.reverse.getD i 0 = 0 then 0x30 else data.reverse.getD i 0
  zero_notMem data := by
    intro hzero
    obtain ⟨i, hi⟩ := List.mem_ofFn.mp hzero
    split at hi
    · cases hi
    · rename_i hne
      exact hne hi
  length_eq data := List.length_ofFn

end SafeTransmission
