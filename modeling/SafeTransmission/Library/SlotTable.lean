import SafeTransmission.Library.Outcome

/-!
# Tables of slots

A table is a list of slots, each of which holds a record or is blank.  A record is
put into the first slot with its key, or else into the first blank slot.  Against
the history of the records that were put (latest first), the table holds the
latest record of each key (`Records`).

The key of a blank slot is a key too: a search for it finds blank slots.

## Strategy

`Records` is the invariant of a table against its history.  A put keeps it (`Records.put`); searches
are read off it (`Records.find?_eq`), and so is whether a slot is left (`Records.no_blank_iff`).
-/

namespace SafeTransmission

open Outcome

/-- The index of the first of the slots that meets the test. -/
def firstSlot {α : Type} (test : α → Outcome Bool) : ℕ → List α → Outcome (Option ℕ)
  | 0, _ => ok none
  | n + 1, t => do
      match t with
      | [] => fault .readOutOfBounds
      | x :: t =>
          if ← test x then ok (some 0)
          else do
            let i ← firstSlot test n t
            ok (i.map (· + 1))

theorem firstSlot_eq {α : Type} {test : α → Outcome Bool} {p : α → Bool} {t : List α}
    (htest : ∀ x ∈ t, test x = ok (p x)) : firstSlot test t.length t = ok (t.findIdx? p) := by
  induction t with
  | nil => rfl
  | cons x t ih =>
      have hrest := ih fun y hy => htest y (List.mem_cons_of_mem _ hy)
      rw [List.length_cons, firstSlot, List.findIdx?_cons]
      simp only [htest x List.mem_cons_self, ok_bind]
      cases p x with
      | true => rfl
      | false =>
          simp only [Bool.false_eq_true, reduceIte, hrest, ok_bind]

namespace SlotTable

variable {α κ : Type} [DecidableEq κ] (key : α → κ) (blank : α)

/-! ## What a table holds -/

/-- The latest record with key `k`. -/
def latest (h : List α) (k : κ) : Option α :=
  h.find? (key · = k)

/-- The table holds the latest records of the history. -/
structure Records (h t : List α) : Prop where
  held : ∀ x ∈ t, x ≠ blank → latest key h (key x) = some x
  once : t.Pairwise fun x y => key x = key y → y = blank
  complete : ∀ k r, r ≠ blank → latest key h k = some r → r ∈ t

section Holding

variable {key blank} {h t : List α} {r : α} {k : κ}

theorem latest_cons (h : List α) (r : α) (k : κ) :
    latest key (r :: h) k = if key r = k then some r else latest key h k := by
  rw [latest, List.find?_cons]
  by_cases hk : key r = k <;> simp [hk, latest]

theorem key_of_latest (hr : latest key h k = some r) : key r = k := by
  simpa using List.find?_some hr

theorem ne_blank_of_latest (hk : k ≠ key blank) (hr : latest key h k = some r) : r ≠ blank := by
  rintro rfl
  exact hk (key_of_latest hr).symm

theorem exists_latest_iff : (∃ r, latest key h k = some r) ↔ k ∈ h.map key := by
  rw [← Option.isSome_iff_exists, latest, List.find?_isSome]
  simp

theorem records_replicate (n : ℕ) : Records key blank [] (List.replicate n blank) where
  held x hx hne := absurd (List.eq_of_mem_replicate hx) hne
  once := List.pairwise_replicate.mpr (Or.inr fun _ => rfl)
  complete k r _ hr := by simp [latest] at hr

/-- A search for the key of a record finds the latest one. -/
theorem Records.find?_eq (ht : Records key blank h t) (hk : k ≠ key blank) :
    t.find? (key · = k) = latest key h k := by
  cases hfind : t.find? (key · = k) with
  | some x =>
      have hkey : key x = k := by simpa using List.find?_some hfind
      have hne : x ≠ blank := by
        rintro rfl
        exact hk hkey.symm
      rw [← hkey, ht.held x (List.mem_of_find?_eq_some hfind) hne]
  | none =>
      cases hlatest : latest key h k with
      | none => rfl
      | some r =>
          have hkey := key_of_latest hlatest
          have hmem := ht.complete k r (ne_blank_of_latest hk hlatest) hlatest
          exact absurd hkey (by simpa using List.find?_eq_none.mp hfind r hmem)

/-- A narrower search finds the latest record with the key too, unless it is blank. -/
theorem Records.find?_of_latest (ht : Records key blank h t) (hr : latest key h k = some r)
    (hne : r ≠ blank) {p : α → Bool} (hp : p r) : t.find? (fun x => key x = k && p x) = some r := by
  obtain ⟨a, ha, hra⟩ := List.mem_iff_getElem.mp (ht.complete k r hne hr)
  have hkey := key_of_latest hr
  refine List.find?_eq_some_iff_getElem.mpr ⟨by simp [hkey, hp], a, ha, hra, fun j hj => ?_⟩
  have hother : key t[j] ≠ k := fun hsame => hne <| by
    rw [← hra]
    exact List.pairwise_iff_getElem.mp ht.once j a (hj.trans ha) ha hj (by rw [hsame, hra, hkey])
  simp [hother]

theorem Records.nodup_keys (ht : Records key blank h t) [DecidableEq α] :
    ((t.filter (· ≠ blank)).map key).Nodup := by
  rw [List.Nodup, List.pairwise_map, List.pairwise_filter]
  refine ht.once.imp fun hxy _ hy hkey => ?_
  simp [hxy hkey] at hy

theorem Records.mem_keys_iff (ht : Records key blank h t) [DecidableEq α] (hk : k ≠ key blank) :
    k ∈ (t.filter (· ≠ blank)).map key ↔ k ∈ h.map key := by
  rw [← exists_latest_iff (h := h), List.mem_map]
  constructor
  · rintro ⟨x, hx, rfl⟩
    obtain ⟨hmem, hne⟩ := List.mem_filter.mp hx
    exact ⟨x, ht.held x hmem (by simpa using hne)⟩
  · rintro ⟨r, hr⟩
    have hne := ne_blank_of_latest hk hr
    exact ⟨r, List.mem_filter.mpr ⟨ht.complete k r hne hr, by simpa using hne⟩, key_of_latest hr⟩

/-- No slot is left exactly if as many keys as there are slots were put. -/
theorem Records.no_blank_iff (ht : Records key blank h t) [DecidableEq α]
    (hh : ∀ r ∈ h, key r ≠ key blank) :
    (∀ x ∈ t, x ≠ blank) ↔ (h.map key).toFinset.card = t.length := by
  have hkeys : (h.map key).toFinset = ((t.filter (· ≠ blank)).map key).toFinset := by
    ext k
    rw [List.mem_toFinset, List.mem_toFinset]
    by_cases hk : k = key blank
    · have hleft : k ∉ h.map key := by
        rw [hk, List.mem_map]
        rintro ⟨r, hr, hkey⟩
        exact hh r hr hkey
      have hright : k ∉ (t.filter (· ≠ blank)).map key := by
        rw [hk, List.mem_map]
        rintro ⟨x, hx, hkey⟩
        obtain ⟨hmem, hne⟩ := List.mem_filter.mp hx
        have hlatest := ht.held x hmem (by simpa using hne)
        exact hh x (List.mem_of_find?_eq_some hlatest) hkey
      exact iff_of_false hleft hright
    · exact (ht.mem_keys_iff hk).symm
  rw [hkeys, List.toFinset_card_of_nodup ht.nodup_keys, List.length_map]
  have hle := List.length_filter_le (· ≠ blank) t
  rw [List.length_filter_eq_length_iff]
  simp

end Holding

/-! ## Putting a record -/

variable [DecidableEq α]

/-- The slot for a record with key `k`. -/
def slotFor (t : List α) (k : κ) : Option ℕ :=
  (t.findIdx? (key · = k)).or (t.findIdx? (· = blank))

/-- Put a record into its slot. -/
def put (t : List α) (r : α) : Option (List α) :=
  (slotFor key blank t (key r)).map (t.set · r)

variable {key blank} {h t t' : List α} {r : α} {k : κ} {i : ℕ}

/-- The slot is the first with the key, or a blank one if there is none. -/
theorem slotFor_spec (hi : slotFor key blank t k = some i) : ∃ hlt : i < t.length,
    key t[i] = k ∧ (∀ j (hj : j < i), key t[j] ≠ k) ∨
      t[i] = blank ∧ (∀ j (hj : j < i), t[j] ≠ blank) ∧ ∀ x ∈ t, key x ≠ k := by
  rw [slotFor, Option.or_eq_some_iff] at hi
  rcases hi with hi | ⟨hnone, hi⟩
  · obtain ⟨hlt, hkey, hfirst⟩ := List.findIdx?_eq_some_iff_getElem.mp hi
    exact ⟨hlt, Or.inl ⟨by simpa using hkey, fun j hj => by simpa using hfirst j hj⟩⟩
  · obtain ⟨hlt, hblank, hfirst⟩ := List.findIdx?_eq_some_iff_getElem.mp hi
    refine ⟨hlt, Or.inr ⟨by simpa using hblank, fun j hj => by simpa using hfirst j hj, fun x hx => ?_⟩⟩
    simpa using List.findIdx?_eq_none_iff.mp hnone x hx

theorem slotFor_eq_none : slotFor key blank t k = none ↔
    (∀ x ∈ t, key x ≠ k) ∧ ∀ x ∈ t, x ≠ blank := by
  rw [slotFor, Option.or_eq_none_iff, List.findIdx?_eq_none_iff, List.findIdx?_eq_none_iff]
  simp

theorem put_eq_some : put key blank t r = some t' ↔
    ∃ i, slotFor key blank t (key r) = some i ∧ t' = t.set i r := by
  simp [put, eq_comm]

theorem put_eq_none : put key blank t r = none ↔
    (∀ x ∈ t, key x ≠ key r) ∧ ∀ x ∈ t, x ≠ blank := by
  rw [put, Option.map_eq_none_iff, slotFor_eq_none]

theorem length_put (hput : put key blank t r = some t') : t'.length = t.length := by
  obtain ⟨i, -, rfl⟩ := put_eq_some.mp hput
  exact List.length_set

/-- Outside the slot for a record, slots with its key are blank, and lie behind it. -/
theorem Records.blank_of_ne_slot (ht : Records key blank h t) (hi : slotFor key blank t k = some i)
    {j : ℕ} (hj : j < t.length) (hne : j ≠ i) (hkey : key t[j] = k) : i < j ∧ t[j] = blank := by
  obtain ⟨hlt, ⟨hk, hfirst⟩ | ⟨-, -, habsent⟩⟩ := slotFor_spec hi
  · have hij : i < j := lt_of_le_of_ne (not_lt.mp fun hji => hfirst j hji hkey) hne.symm
    exact ⟨hij, List.pairwise_iff_getElem.mp ht.once i j hlt hj hij (hk.trans hkey.symm)⟩
  · exact absurd hkey (habsent _ (List.getElem_mem hj))

/-- Putting a record keeps the table in step with the history. -/
theorem Records.put (ht : Records key blank h t) (hput : put key blank t r = some t') :
    Records key blank (r :: h) t' := by
  obtain ⟨i, hi, rfl⟩ := put_eq_some.mp hput
  obtain ⟨hlt, hslot⟩ := slotFor_spec hi
  refine ⟨fun x hx hne => ?_, ?_, fun k r' hnonblank hr' => ?_⟩
  · -- what the slots hold
    obtain ⟨j, hj, rfl⟩ := List.mem_iff_getElem.mp hx
    rw [List.length_set] at hj
    by_cases hji : j = i
    · simp [hji, latest_cons]
    · rw [List.getElem_set_ne (Ne.symm hji)] at hne ⊢
      have hkey : key r ≠ key t[j] := fun hkey => hne (ht.blank_of_ne_slot hi hj hji hkey.symm).2
      rw [latest_cons, if_neg hkey]
      exact ht.held _ (List.getElem_mem hj) hne
  · -- each key once
    refine List.pairwise_iff_getElem.mpr fun a b ha hb hab hkey => ?_
    rw [List.length_set] at ha hb
    by_cases hai : i = a
    · subst hai
      rw [List.getElem_set_self, List.getElem_set_ne hab.ne] at hkey
      rw [List.getElem_set_ne hab.ne]
      exact (ht.blank_of_ne_slot hi hb hab.ne' hkey.symm).2
    · rw [List.getElem_set_ne hai] at hkey
      by_cases hbi : i = b
      · subst hbi
        rw [List.getElem_set_self] at hkey
        exact absurd (ht.blank_of_ne_slot hi ha hab.ne hkey).1 (by omega)
      · rw [List.getElem_set_ne hbi] at hkey ⊢
        exact List.pairwise_iff_getElem.mp ht.once a b ha hb hab hkey
  · -- every latest record is in some slot
    rw [latest_cons] at hr'
    split at hr'
    · obtain rfl := Option.some.inj hr'
      exact List.mem_set hlt r
    · rename_i hne
      obtain ⟨j, hj, rfl⟩ := List.mem_iff_getElem.mp (ht.complete k r' hnonblank hr')
      have hkey := key_of_latest hr'
      have hji : i ≠ j := by
        rintro rfl
        rcases hslot with ⟨hsame, -⟩ | ⟨hblank, -, -⟩
        · exact hne (hsame.symm.trans hkey)
        · exact hnonblank hblank
      exact List.mem_iff_getElem.mpr ⟨j, by simpa using hj, List.getElem_set_ne hji _⟩

/-- Putting records with keys of their own keeps the blank slots behind the others. -/
theorem blank_suffix_put (ht : t.Pairwise fun x y => x = blank → y = blank)
    (hr : key r ≠ key blank) (hput : put key blank t r = some t') :
    t'.Pairwise fun x y => x = blank → y = blank := by
  obtain ⟨i, hi, rfl⟩ := put_eq_some.mp hput
  obtain ⟨hlt, hslot⟩ := slotFor_spec hi
  refine List.pairwise_iff_getElem.mpr fun a b ha hb hab hblank => ?_
  rw [List.length_set] at ha hb
  have hpair := List.pairwise_iff_getElem.mp ht a b ha hb hab
  by_cases hai : i = a
  · subst hai
    rw [List.getElem_set_self] at hblank
    exact absurd (congrArg key hblank) hr
  · rw [List.getElem_set_ne hai] at hblank
    have hb' := hpair hblank
    by_cases hbi : i = b
    · subst hbi
      rcases hslot with ⟨hsame, -⟩ | ⟨-, hfirst, -⟩
      · exact absurd (hsame.symm.trans (congrArg key hb')) hr
      · exact absurd hblank (hfirst a hab)
    · rw [List.getElem_set_ne hbi]
      exact hb'

end SlotTable

end SafeTransmission
