import Evm.Gas.Schedule
import Mathlib.Algebra.Group.Nat.Defs

/-! # What a history of growth costs

    Memory is paid for by the word, with a part that grows with the square, and
    what growth costs is what the larger memory costs more than the smaller one.
    The plain rule for both is over numbers without bound (`exactMemory`,
    `exactExpansion`). The schedule cuts down to 64 bits in three places: the
    part by the word, the square before it is divided, and their sum. Each comes
    at another size, the first of them at `2 ^ 32` words, and up to there the
    plain rule holds (`memory_eq_exact_iff`).

    Cutting down never reverses an order, so a larger memory costs no less also
    where one of two prices is cut down and the other is not (`memory_mono`), and
    what growth costs is a difference that is really there. One step of growth
    leads from the price of what there was to the price of what there is
    (`memory_add_memoryExpansion`). Over a history the differences add up, and
    nothing is left of the sizes in between (`growth_path_independent`).
-/

namespace Evm.Gas

/-! ## The plain rule -/

/-- All of a memory of `w` words, in numbers without bound. -/
def exactMemory (w : Nat) : Nat := 3 * w + w * w / 512

/-- Growing memory from `current` words until it has `last` bytes, in numbers
    without bound; nothing if it has them. -/
def exactExpansion (current last : Nat) : Nat :=
  exactMemory (max current (words last)) - exactMemory current

theorem exactMemory_mono {v w : Nat} (h : v ≤ w) : exactMemory v ≤ exactMemory w := by
  have hsquare : v * v ≤ w * w := Nat.mul_le_mul h h
  unfold exactMemory
  omega

theorem exactExpansion_mono (current : Nat) {last last' : Nat} (h : last ≤ last') :
    exactExpansion current last ≤ exactExpansion current last' := by
  have hwords : max current (words last) ≤ max current (words last') := by
    unfold words
    omega
  exact Nat.sub_le_sub_right (exactMemory_mono hwords) _

theorem exactExpansion_of_covered {current last : Nat} (h : words last ≤ current) :
    exactExpansion current last = 0 := by
  unfold exactExpansion
  rw [Nat.max_eq_left h, Nat.sub_self]

/-! ## Cutting down -/

theorem capped_le (amount : Nat) : capped amount ≤ Word.maxUInt64 := Nat.min_le_right _ _

/-- Cutting down never reverses an order. -/
theorem capped_mono {v w : Nat} (h : v ≤ w) : capped v ≤ capped w := by
  unfold capped
  omega

/-- Up to 32 bits of words nothing is cut down. -/
theorem memory_eq_exact {w : Nat} (h : w < 2 ^ 32) : memory w = exactMemory w := by
  have hsquare : w * w ≤ (2 ^ 32 - 1) * (2 ^ 32 - 1) :=
    Nat.mul_le_mul (Nat.le_sub_one_of_lt h) (Nat.le_sub_one_of_lt h)
  unfold memory capped exactMemory Word.maxUInt64
  omega

/-- From there on the square is cut down, and its part stays the same. -/
theorem memory_of_cut {w : Nat} (h : 2 ^ 32 ≤ w) : memory w = capped (3 * w + (2 ^ 55 - 1)) := by
  have hsquare : 2 ^ 32 * 2 ^ 32 ≤ w * w := Nat.mul_le_mul h h
  unfold memory capped Word.maxUInt64
  omega

/-- What is cut down is below the plain price. -/
theorem memory_lt_exact {w : Nat} (h : 2 ^ 32 ≤ w) : memory w < exactMemory w := by
  have hsquare : 2 ^ 32 * 2 ^ 32 ≤ w * w := Nat.mul_le_mul h h
  rw [memory_of_cut h]
  unfold capped exactMemory
  omega

/-- The sizes at which the price is the plain one. -/
theorem memory_eq_exact_iff (w : Nat) : memory w = exactMemory w ↔ w < 2 ^ 32 := by
  constructor
  · intro hexact
    rcases Nat.lt_or_ge w (2 ^ 32) with hsmall | hlarge
    · exact hsmall
    · exact absurd hexact (Nat.ne_of_lt (memory_lt_exact hlarge))
  · exact memory_eq_exact

/-! ## One step of growth -/

/-- A larger memory costs no less. -/
theorem memory_mono {v w : Nat} (h : v ≤ w) : memory v ≤ memory w := by
  have hlinear : capped (3 * v) ≤ capped (3 * w) := capped_mono (Nat.mul_le_mul_left 3 h)
  have hsquare : capped (v * v) ≤ capped (w * w) := capped_mono (Nat.mul_le_mul h h)
  exact capped_mono (Nat.add_le_add hlinear (Nat.div_le_div_right hsquare))

/-- **What there was and its growth cost what there is then.** Memory does not
    shrink, and asking for less than there is costs nothing. -/
theorem memory_add_memoryExpansion (current wanted : Nat) :
    memory current + memoryExpansion current wanted = memory (max current wanted) := by
  unfold memoryExpansion
  split
  case isTrue hcovered => rw [Nat.max_eq_left hcovered, Nat.add_zero]
  case isFalse hgrows =>
    have hle : current ≤ wanted := Nat.le_of_not_le hgrows
    rw [Nat.max_eq_right hle]
    exact Nat.add_sub_of_le (memory_mono hle)

/-- Two steps of growth cost what one costs. -/
theorem memoryExpansion_add {a b : Nat} (c : Nat) (hab : a ≤ b) :
    memoryExpansion a b + memoryExpansion b c = memoryExpansion a (max b c) := by
  have hmax : max a (max b c) = max b c := Nat.max_eq_right (Nat.le_trans hab (Nat.le_max_left b c))
  refine Nat.add_left_cancel (n := memory a) ?_
  calc memory a + (memoryExpansion a b + memoryExpansion b c)
      = memory (max a b) + memoryExpansion b c := by
        rw [← Nat.add_assoc, memory_add_memoryExpansion]
    _ = memory (max b c) := by rw [Nat.max_eq_right hab, memory_add_memoryExpansion]
    _ = memory a + memoryExpansion a (max b c) := by rw [memory_add_memoryExpansion, hmax]

/-- What is charged for growth is its price. -/
theorem memoryExpansion_eq_exact {current last : Nat} (hlast : words last < 2 ^ 32)
    (hgrows : current < words last) :
    memoryExpansion current (words last) = exactExpansion current last := by
  unfold memoryExpansion exactExpansion
  rw [if_neg (Nat.not_le.mpr hgrows), Nat.max_eq_right (Nat.le_of_lt hgrows),
    memory_eq_exact hlast, memory_eq_exact (Nat.lt_trans hgrows hlast)]

/-- The price of growth is what the words that are new add to the whole. -/
theorem exactExpansion_add_memory (current : Nat) {last : Nat} (hlast : words last < 2 ^ 32) :
    exactExpansion current last + memory current = memory (max current (words last)) := by
  by_cases hgrows : current < words last
  · rw [← memoryExpansion_eq_exact hlast hgrows, Nat.add_comm, memory_add_memoryExpansion]
  · have hcovered := Nat.le_of_not_lt hgrows
    rw [exactExpansion_of_covered hcovered, Nat.max_eq_left hcovered, Nat.zero_add]

/-! ## All growth -/

/-- The price of asking for some numbers of words, one after another. -/
def growthCost : (current : Nat) → (requests : List Nat) → Nat
  | _, [] => 0
  | current, wanted :: later =>
    memoryExpansion current wanted + growthCost (max current wanted) later

/-- The largest of some requests. -/
def largest (requests : List Nat) : Nat := requests.foldr max 0

/-- What there was and all that is asked for cost what there is in the end. -/
theorem memory_add_growthCost (current : Nat) (requests : List Nat) :
    memory current + growthCost current requests = memory (max current (largest requests)) := by
  induction requests generalizing current with
  | nil => rw [growthCost, largest, List.foldr_nil, Nat.max_zero, Nat.add_zero]
  | cons wanted later ih =>
    have hlargest : largest (wanted :: later) = max wanted (largest later) := rfl
    calc memory current + growthCost current (wanted :: later)
        = memory current + memoryExpansion current wanted +
            growthCost (max current wanted) later := by rw [growthCost, Nat.add_assoc]
      _ = memory (max current wanted) + growthCost (max current wanted) later := by
          rw [memory_add_memoryExpansion]
      _ = memory (max current (largest (wanted :: later))) := by rw [ih, hlargest, Nat.max_assoc]

/-- **Pricing of growth is path-independent.** A larger memory costs no less, so
    that what growth costs is really the difference of the two prices. Growing in
    two steps costs what growing at once does, and so do any requests, in any
    order: together they cost what the largest one costs alone. All prices are
    numbers that 64 bits hold, and up to `2 ^ 32` words, and no further, they are
    exact. -/
theorem growth_path_independent :
    (∀ a b, a ≤ b → memory a ≤ memory b ∧ memory a + memoryExpansion a b = memory b) ∧
      (∀ a b c, a ≤ b → b ≤ c →
        memoryExpansion a b + memoryExpansion b c = memoryExpansion a c) ∧
      (∀ a requests, growthCost a requests = memoryExpansion a (largest requests)) ∧
      ∀ w, memory w ≤ Word.maxUInt64 ∧ (memory w = 3 * w + w * w / 512 ↔ w < 2 ^ 32) := by
  refine ⟨?difference, ?steps, ?requests, ?exact⟩
  case difference =>
    intro a b hab
    have hprice := memory_add_memoryExpansion a b
    rw [Nat.max_eq_right hab] at hprice
    exact ⟨memory_mono hab, hprice⟩
  case steps =>
    intro a b c hab hbc
    rw [memoryExpansion_add c hab, Nat.max_eq_right hbc]
  case requests =>
    intro a requests
    have hall := memory_add_growthCost a requests
    have honce := memory_add_memoryExpansion a (largest requests)
    exact Nat.add_left_cancel (hall.trans honce.symm)
  case exact =>
    intro w
    exact ⟨capped_le _, memory_eq_exact_iff w⟩

/-- Growth across all three bounds: at `2 ^ 32` and at `2 ^ 62` words the square
    alone is cut down, at the end the part by the word and the sum are too. -/
theorem growth_path_independent_across_bounds :
    2 ^ 32 ≤ 2 ^ 62 ∧ 2 ^ 62 ≤ 2 ^ 64 - 1 ∧
      memory (2 ^ 32) ≤ memory (2 ^ 62) ∧ memory (2 ^ 62) ≤ memory (2 ^ 64 - 1) ∧
      memoryExpansion (2 ^ 32) (2 ^ 62) + memoryExpansion (2 ^ 62) (2 ^ 64 - 1) =
        memoryExpansion (2 ^ 32) (2 ^ 64 - 1) ∧
      memory (2 ^ 64 - 1) = Word.maxUInt64 ∧ memory (2 ^ 32) + 1 = exactMemory (2 ^ 32) := by
  have hfirst : 2 ^ 32 ≤ 2 ^ 62 := by decide
  have hsecond : 2 ^ 62 ≤ 2 ^ 64 - 1 := by decide
  obtain ⟨hdifference, hsteps, _, _⟩ := growth_path_independent
  exact ⟨hfirst, hsecond, (hdifference _ _ hfirst).1, (hdifference _ _ hsecond).1,
    hsteps _ _ _ hfirst hsecond, by decide, by decide⟩

end Evm.Gas
