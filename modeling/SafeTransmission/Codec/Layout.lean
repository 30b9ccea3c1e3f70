import SafeTransmission.Codec.Messages

/-!
# Members at separate places

As long as no value is longer than its member, the members of a message do not
disturb each other: values that are stored one after the other are all there at
the end (`storeAll_spec`).  `copyMembers` is such a run of stores.
-/

namespace SafeTransmission

open Outcome

/-- The two members have no byte in common. -/
def Member.Apart (m m' : Member) : Prop :=
  m.off + m.cap ≤ m'.off ∨ m'.off + m'.cap ≤ m.off

instance : DecidableRel Member.Apart := fun m m' =>
  inferInstanceAs (Decidable (m.off + m.cap ≤ m'.off ∨ m'.off + m'.cap ≤ m.off))

/-- The members lie inside an object of `n` bytes, apart from each other. -/
structure Layout (n : ℕ) (ms : List Member) : Prop where
  inside : ∀ m ∈ ms, m.off + m.cap ≤ n
  apart : ms.Pairwise Member.Apart

theorem RequestMsg.layout : Layout 160 members :=
  ⟨by decide, by decide⟩

theorem RespondMsg.layout : Layout 96 members :=
  ⟨by decide, by decide⟩

namespace Codec

variable {n : ℕ}

/-- The strings of the members end inside their arrays. -/
def Terminated (ms : List Member) (msg : CObject n) : Prop :=
  ∀ m ∈ ms, m.kind = .chars → 0 ∈ msg.chars m.off m.cap

instance (ms : List Member) (msg : CObject n) : Decidable (Terminated ms msg) :=
  inferInstanceAs (Decidable (∀ m ∈ ms, m.kind = .chars → 0 ∈ msg.chars m.off m.cap))

/-- Storing the values into the members, one after the other. -/
def storeAll : List Member → List Bytes → CObject n → Outcome (CObject n)
  | m :: ms, d :: ds, msg => do
      let msg ← msg.store m.off d
      storeAll ms ds msg
  | _, _, msg => ok msg

theorem storeAll_cons_eq_ok {m : Member} {ms : List Member} {d : Bytes} {ds : List Bytes}
    {msg msg' : CObject n} : storeAll (m :: ms) (d :: ds) msg = ok msg' ↔
      ∃ msg₁, msg.store m.off d = ok msg₁ ∧ storeAll ms ds msg₁ = ok msg' :=
  bind_eq_ok

theorem storeAll_singleton {m : Member} {d : Bytes} {msg : CObject n} :
    storeAll [m] [d] msg = msg.store m.off d := by
  rw [storeAll]
  cases msg.store m.off d <;> rfl

/-- Bytes apart from all members are kept. -/
theorem storeAll_holds_of_apart {ms : List Member} {ds : List Bytes} {msg msg' : CObject n}
    (hcap : List.Forall₂ (fun m d => d.length ≤ m.cap) ms ds) (h : storeAll ms ds msg = ok msg')
    {k : ℕ} {e : Bytes} (hk : ∀ m ∈ ms, k + e.length ≤ m.off ∨ m.off + m.cap ≤ k)
    (he : msg.Holds k e) : msg'.Holds k e := by
  induction hcap generalizing msg with
  | nil =>
      obtain rfl := ok.inj h
      exact he
  | @cons m d ms ds hd _ ih =>
      obtain ⟨msg₁, hstore, hrest⟩ := bind_eq_ok.mp h
      refine ih hrest (fun m' hm' => hk m' (List.mem_cons_of_mem _ hm')) (he.of_apart hstore ?_)
      have := hk m List.mem_cons_self
      omega

/-- The first value may run over its member; the bytes inside are there at the end. -/
theorem storeAll_cons_spec {m : Member} {ms : List Member} {d e : Bytes} {ds : List Bytes}
    (hlayout : Layout n (m :: ms)) (hd : m.off + d.length ≤ n) (he : ∃ k, e = d.take k)
    (hcap : e.length ≤ m.cap) (hrest : List.Forall₂ (fun m d => d.length ≤ m.cap) ms ds)
    (ih : ∀ msg : CObject n, ∃ msg', storeAll ms ds msg = ok msg' ∧
      List.Forall₂ (fun m d => msg'.Holds m.off d) ms ds) (msg : CObject n) :
    ∃ msg', storeAll (m :: ms) (d :: ds) msg = ok msg' ∧
      List.Forall₂ (fun m d => msg'.Holds m.off d) (m :: ms) (e :: ds) := by
  obtain ⟨hapart, -⟩ := List.pairwise_cons.mp hlayout.apart
  obtain ⟨msg₁, hstore⟩ := msg.exists_store hd
  obtain ⟨msg', hall, hholds⟩ := ih msg₁
  refine ⟨msg', by rw [storeAll, hstore, ok_bind, hall], .cons ?_ hholds⟩
  have hfirst : msg₁.Holds m.off e := by
    obtain ⟨k, rfl⟩ := he
    exact (CObject.holds_store_self hstore).take k
  refine storeAll_holds_of_apart hrest hall (fun m' hm' => ?_) hfirst
  have := hapart m' hm'
  unfold Member.Apart at this
  omega

theorem tail_layout {m : Member} {ms : List Member} (h : Layout n (m :: ms)) : Layout n ms :=
  ⟨fun m' hm' => h.inside m' (List.mem_cons_of_mem _ hm'), (List.pairwise_cons.mp h.apart).2⟩

/-- Values that fit are all stored, and all there at the end. -/
theorem storeAll_spec {ms : List Member} {ds : List Bytes} (hlayout : Layout n ms)
    (hcap : List.Forall₂ (fun m d => d.length ≤ m.cap) ms ds) (msg : CObject n) :
    ∃ msg', storeAll ms ds msg = ok msg' ∧
      List.Forall₂ (fun m d => msg'.Holds m.off d) ms ds := by
  induction hcap generalizing msg with
  | nil => exact ⟨msg, rfl, .nil⟩
  | @cons m d ms ds hd hrest ih =>
      have hinside := hlayout.inside m List.mem_cons_self
      exact storeAll_cons_spec hlayout (by omega) ⟨d.length, by simp⟩ hd hrest
        (ih (tail_layout hlayout)) msg

/-- What becomes of the members: the values, and behind them what was there. -/
theorem storeAll_chars {ms : List Member} {ds : List Bytes} {msg msg₀ msg' : CObject n}
    (hlayout : Layout n ms) (hcap : List.Forall₂ (fun m d => d.length ≤ m.cap) ms ds)
    (hsame : ∀ m ∈ ms, msg.chars m.off m.cap = msg₀.chars m.off m.cap)
    (h : storeAll ms ds msg = ok msg') :
    List.Forall₂ (fun m d => msg'.chars m.off m.cap =
      d ++ (msg₀.chars m.off m.cap).drop d.length) ms ds := by
  induction hcap generalizing msg with
  | nil => exact .nil
  | @cons m d ms ds hd hrest ih =>
      obtain ⟨hapart, -⟩ := List.pairwise_cons.mp hlayout.apart
      obtain ⟨msg₁, hstore, hmore⟩ := bind_eq_ok.mp h
      refine .cons ?_ (ih (tail_layout hlayout) (fun m' hm' => ?_) hmore)
      · have hcapacity := msg₁.length_chars (hlayout.inside m List.mem_cons_self)
        have hkept := storeAll_holds_of_apart hrest hmore (k := m.off)
          (e := msg₁.chars m.off m.cap) (fun m' hm' => ?_) (by rw [CObject.Holds, hcapacity])
        · rw [CObject.Holds, hcapacity] at hkept
          rw [hkept, CObject.chars_store_self hstore hd, hsame m List.mem_cons_self]
        · have := hapart m' hm'
          unfold Member.Apart at this
          omega
      · rw [CObject.chars_store_of_apart hstore, hsame m' (List.mem_cons_of_mem _ hm')]
        have := hapart m' hm'
        unfold Member.Apart at this
        omega

theorem storeAll_inside {ms : List Member} {ds : List Bytes} {msg msg' : CObject n}
    (h : storeAll ms ds msg = ok msg') : ∀ p ∈ ms.zip ds, p.1.off + p.2.length ≤ n := by
  induction ms generalizing ds msg with
  | nil => simp
  | cons m ms ih =>
      cases ds with
      | nil => simp
      | cons d ds =>
          obtain ⟨msg₁, hstore, hrest⟩ := bind_eq_ok.mp h
          rw [List.zip_cons_cons, List.forall_mem_cons]
          exact ⟨(CObject.store_eq_ok.mp hstore).1, ih hrest⟩

theorem storeAll_of_inside {ms : List Member} {ds : List Bytes}
    (h : ∀ p ∈ ms.zip ds, p.1.off + p.2.length ≤ n) (msg : CObject n) :
    ∃ msg', storeAll ms ds msg = ok msg' := by
  induction ms generalizing ds msg with
  | nil => exact ⟨msg, rfl⟩
  | cons m ms ih =>
      cases ds with
      | nil => exact ⟨msg, rfl⟩
      | cons d ds =>
          rw [List.zip_cons_cons, List.forall_mem_cons] at h
          obtain ⟨msg₁, hstore⟩ := msg.exists_store h.1
          obtain ⟨msg', hrest⟩ := ih h.2 msg₁
          exact ⟨msg', by rw [storeAll, hstore, ok_bind, hrest]⟩

/-- The bytes that are copied for a member. -/
def copiedValue (src : CObject n) (m : Member) : Bytes :=
  match m.kind with
  | .int => intBytes (src.int m.off)
  | .chars => src.str m.off ++ [0]

/-- Copying a message is storing the values of its members. -/
theorem copyMembers_eq {src : CObject n} {ms : List Member}
    (h : ∀ m ∈ ms, m.kind = .chars → 0 ∈ src.ptr m.off) (dst : CObject n) :
    copyMembers src ms dst = storeAll ms (ms.map (copiedValue src)) dst := by
  induction ms generalizing dst with
  | nil => rfl
  | cons m ms ih =>
      have hcopy : copyMembers src (m :: ms) dst = (do
          let dst ← dst.store m.off (copiedValue src m)
          copyMembers src ms dst) := by
        rw [copyMembers, copiedValue]
        cases hkind : m.kind with
        | int => rfl
        | chars => simp [cStringZ, h m List.mem_cons_self hkind, CObject.str]
      rw [hcopy, List.map_cons, storeAll]
      cases dst.store m.off (copiedValue src m) with
      | ok dst' => exact ih (fun m' hm' => h m' (List.mem_cons_of_mem _ hm')) dst'
      | err code => rfl
      | fault kind => rfl

end Codec

end SafeTransmission
