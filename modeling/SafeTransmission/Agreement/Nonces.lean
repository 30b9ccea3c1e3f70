import SafeTransmission.Agreement.Keys

/-!
# The values of `rand()` that the random strings draw

`srand` starts the stream of `rand()` that belongs to its seed, and the stream of a seed is
the same in every process.  `getRandString` calls `srand(time(NULL))` each time before it
draws two values for every character.

Two calls therefore draw the same values whenever their seconds agree modulo `2 ^ 32`, in one
process or in two: no value is drawn twice exactly if no two calls meet in a second
(`fresh_iff`).  What a process has drawn before has no influence.
-/

namespace SafeTransmission

/-- The values of `rand()`: after `srand(seed)`, call `i` of `rand()` gives `stream seed i`. -/
abbrev Stream := ℕ → ℕ → ℕ

/-- The generator of a process: its stream, how far it is in it, and all values that were
drawn from any stream, with their places. -/
structure Rand where
  seed : ℕ
  position : ℕ
  drawn : List (ℕ × ℕ)
deriving DecidableEq, Repr

namespace Rand

/-- The generator of a new process: `rand()` goes as after `srand(1)`. -/
def new : Rand :=
  ⟨1, 0, []⟩

/-- The seed that `srand` gets at a time: it is converted to `unsigned int`. -/
def seedAt (now : ℤ) : ℕ :=
  (now % 2 ^ 32).toNat

/-- `srand(time(NULL))`. -/
def srand (now : ℤ) (g : Rand) : Rand :=
  { g with seed := seedAt now, position := 0 }

/-- `rand()`. -/
def rand (stream : Stream) (g : Rand) : ℕ × Rand :=
  (stream g.seed g.position,
    { g with position := g.position + 1, drawn := g.drawn ++ [(g.seed, g.position)] })

/-- The loop of `getRandString` over `n` characters. -/
def chars (stream : Stream) : ℕ → Rand → Bytes × Rand
  | 0, g => ([], g)
  | n + 1, g =>
      let (flag, g) := g.rand stream
      let (value, g) := g.rand stream
      let (rest, g) := chars stream n g
      (randChar flag value :: rest, g)

/-- `getRandString` at a time, with the generator of the process. -/
def getRandStringAt (stream : Stream) (now : ℤ) (len : ℕ) (g : Rand) : Bytes × Rand :=
  let (text, g) := chars stream (len - 1) (g.srand now)
  (text ++ [0], g)

/-- A call of `getRandString`: the time, and the size of the array. -/
structure Call where
  now : ℤ
  len : ℕ
  len_pos : 0 < len

/-- The calls of a process, one after the other: the generator after them. -/
def calls (stream : Stream) : List Call → Rand → Rand
  | [], g => g
  | c :: cs, g => calls stream cs (getRandStringAt stream c.now c.len g).2

/-- No value of a stream is drawn twice in the client or in the server, and what the server
draws the client has not drawn. -/
structure Fresh (stream : Stream) (client server : List Call) : Prop where
  nodup_client : (calls stream client .new).drawn.Nodup
  nodup_server : (calls stream server .new).drawn.Nodup
  concealed : (calls stream client .new).drawn.Disjoint (calls stream server .new).drawn

/-- What a call makes is a function of the second and the size alone. -/
def OfSecondAlone (stream : Stream) : Prop :=
  ∃ text : ℤ → ℕ → Bytes, ∀ now len g, (getRandStringAt stream now len g).1 = text now len

/-- No two calls that draw anything meet in a second, modulo `2 ^ 32`. -/
def Apart (c d : Call) : Prop :=
  1 < c.len → 1 < d.len → seedAt c.now ≠ seedAt d.now

/-! ## What a call draws -/

/-- The values from the start of the stream that a call draws. -/
def segment (c : Call) : List (ℕ × ℕ) :=
  (List.range (2 * (c.len - 1))).map (seedAt c.now, ·)

section Draws

variable (stream : Stream) {client server : List Call}

/-- The loop draws two values for every character. -/
theorem chars_eq (n : ℕ) (g : Rand) : chars stream n g =
    ((List.range n).map fun i =>
        randChar (stream g.seed (g.position + 2 * i)) (stream g.seed (g.position + (2 * i + 1))),
      ⟨g.seed, g.position + 2 * n,
        g.drawn ++ (List.range (2 * n)).map fun i => (g.seed, g.position + i)⟩) := by
  induction n generalizing g with
  | zero => simp [chars]
  | succ n ih =>
      rw [chars]
      dsimp only [rand]
      rw [ih, Nat.mul_succ, List.range_succ_eq_map, List.range_succ_eq_map, List.range_succ_eq_map]
      -- both sides are the two values at `g.position`, and then those behind them
      simp only [List.map_cons, List.map_map, List.append_assoc, List.cons_append, List.nil_append,
        Function.comp_def, Nat.mul_succ, Nat.mul_zero, Nat.add_zero, Nat.zero_add, Nat.succ_eq_add_one,
        Nat.add_assoc, Nat.reduceAdd, Nat.add_comm, Nat.add_left_comm]

theorem getRandStringAt_fst (now : ℤ) (len : ℕ) (g : Rand) :
    (getRandStringAt stream now len g).1 = getRandString len (stream (seedAt now)) := by
  rw [getRandStringAt, chars_eq]
  simp [getRandString, randText, srand]

theorem drawn_getRandStringAt (c : Call) (g : Rand) :
    (getRandStringAt stream c.now c.len g).2.drawn = g.drawn ++ segment c := by
  rw [getRandStringAt, chars_eq]
  simp [srand, segment]

theorem drawn_calls (cs : List Call) (g : Rand) :
    (calls stream cs g).drawn = g.drawn ++ cs.flatMap segment := by
  induction cs generalizing g with
  | nil => simp [calls]
  | cons c cs ih =>
      rw [calls, ih, drawn_getRandStringAt, List.append_assoc, List.flatMap_cons]

theorem nodup_segment (c : Call) : (segment c).Nodup :=
  List.nodup_range.map fun _ _ h => (Prod.mk.inj h).2

theorem mem_segment {c : Call} {d : ℕ × ℕ} :
    d ∈ segment c ↔ d.1 = seedAt c.now ∧ d.2 < 2 * (c.len - 1) := by
  rw [segment, List.mem_map]
  constructor
  · rintro ⟨i, hi, rfl⟩
    exact ⟨rfl, List.mem_range.mp hi⟩
  · rintro ⟨hseed, hplace⟩
    exact ⟨d.2, List.mem_range.mpr hplace, Prod.ext hseed.symm rfl⟩

/-- Two calls draw no common value exactly if they are apart. -/
theorem disjoint_segment_iff {c d : Call} : (segment c).Disjoint (segment d) ↔ Apart c d := by
  constructor
  · intro hdisjoint hc hd hseed
    have hfirst : (seedAt c.now, 0) ∈ segment c := mem_segment.mpr ⟨rfl, by dsimp only; omega⟩
    exact hdisjoint hfirst (mem_segment.mpr ⟨hseed, by dsimp only; omega⟩)
  · intro hapart x hc hd
    obtain ⟨hc, hcLen⟩ := mem_segment.mp hc
    obtain ⟨hd, hdLen⟩ := mem_segment.mp hd
    exact hapart (by omega) (by omega) (hc.symm.trans hd)

/-- A process draws no value twice exactly if its calls are apart. -/
theorem nodup_drawn_iff (cs : List Call) :
    (calls stream cs .new).drawn.Nodup ↔ cs.Pairwise Apart := by
  rw [drawn_calls, new, List.nil_append, List.nodup_flatMap]
  have hpairs : cs.Pairwise (Function.onFun List.Disjoint segment) ↔ cs.Pairwise Apart :=
    List.Pairwise.iff fun _ _ => disjoint_segment_iff
  rw [hpairs]
  exact and_iff_right fun c _ => nodup_segment c

theorem disjoint_drawn_iff (client server : List Call) :
    (calls stream client .new).drawn.Disjoint (calls stream server .new).drawn ↔
      ∀ c ∈ client, ∀ d ∈ server, Apart c d := by
  rw [drawn_calls, drawn_calls, new, List.nil_append, List.nil_append]
  constructor
  · intro hdisjoint c hc d hd
    refine disjoint_segment_iff.mp fun x hxc hxd => ?_
    exact hdisjoint (List.mem_flatMap.mpr ⟨c, hc, hxc⟩) (List.mem_flatMap.mpr ⟨d, hd, hxd⟩)
  · intro hapart x hclient hserver
    obtain ⟨c, hc, hxc⟩ := List.mem_flatMap.mp hclient
    obtain ⟨d, hd, hxd⟩ := List.mem_flatMap.mp hserver
    exact disjoint_segment_iff.mpr (hapart c hc d hd) hxc hxd

/-- All values are fresh exactly if no two calls, of one program or of both, meet in a second.
The string that a call makes is in any case a function of its second. -/
theorem fresh_iff (client server : List Call) :
    (Fresh stream client server ↔ (client ++ server).Pairwise Apart) ∧ OfSecondAlone stream := by
  constructor
  · rw [List.pairwise_append]
    constructor
    · rintro ⟨hclient, hserver, hconcealed⟩
      exact ⟨(nodup_drawn_iff stream client).mp hclient, (nodup_drawn_iff stream server).mp hserver,
        (disjoint_drawn_iff stream client server).mp hconcealed⟩
    · rintro ⟨hclient, hserver, hacross⟩
      exact ⟨(nodup_drawn_iff stream client).mpr hclient, (nodup_drawn_iff stream server).mpr hserver,
        (disjoint_drawn_iff stream client server).mpr hacross⟩
  · exact ⟨fun now len => getRandString len (stream (seedAt now)), fun now len g =>
      getRandStringAt_fst stream now len g⟩

end Draws

/-- Two key agreements of a server in one second. -/
def twice : List Call :=
  [⟨1000000000, 64, by decide⟩, ⟨1000000000, 64, by decide⟩]

/-- The second agreement draws the values of the first one again. -/
theorem not_fresh_twice : ¬Fresh (fun seed i => seed + i) [] twice := by
  rintro ⟨-, hserver, -⟩
  have hpairs := (nodup_drawn_iff (fun seed i => seed + i) twice).mp hserver
  have hapart : Apart ⟨1000000000, 64, by decide⟩ ⟨1000000000, 64, by decide⟩ :=
    List.rel_of_pairwise_cons hpairs (List.mem_singleton_self _)
  exact hapart (by decide) (by decide) rfl

end Rand

end SafeTransmission
