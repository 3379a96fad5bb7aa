import Mathlib.Data.BitVec
import Mathlib.Logic.Function.Iterate
import Mathlib.Order.Bounds.Basic
import Evm.Engine
import Evm.Frame.Instruction
import Evm.Proofs.Bytes
import Evm.Proofs.Frame.Equations
import Evm.State.Database

/-! # Powers

    Square and multiply gives the power, though its accumulator and its base
    wrap: words are a ring, and in that ring every round keeps
    `result * base ^ exponent` (`Squaring.sought_round`). Every round takes a
    bit off the exponent, so that a word is used up after 256 rounds at the
    latest (`Squaring.rounds_le`).

    The instruction is paid for by the byte of the exponent, in the shortest
    string of bytes that spells it (`isLeast_byteLength`).
-/

namespace Evm

namespace Word

/-! ## The loop -/

namespace Squaring

variable (s : Squaring)

/-- The power that is sought. -/
def sought : Word := s.result * s.base ^ s.exponent.toNat

/-- **A round keeps what is sought.** -/
theorem sought_round : s.round.sought = s.sought := by
  have hhalf : (s.exponent >>> 1).toNat = s.exponent.toNat / 2 := by
    rw [BitVec.toNat_ushiftRight, Nat.shiftRight_eq_div_pow, pow_one]
  have hlast : s.exponent.getLsbD 0 = decide (s.exponent.toNat % 2 = 1) := Nat.testBit_zero _
  have hsplit : s.base ^ s.exponent.toNat =
      (s.base * s.base) ^ (s.exponent.toNat / 2) * s.base ^ (s.exponent.toNat % 2) := by
    rw [← pow_two, ← pow_mul, ← pow_add, Nat.div_add_mod]
  rw [sought, sought, hsplit, round, hhalf, hlast]
  rcases Nat.mod_two_eq_zero_or_one s.exponent.toNat with heven | hodd
  · rw [heven, pow_zero, mul_one]
    rfl
  · rw [hodd, pow_one, decide_eq_true rfl, if_pos rfl, mul_assoc, mul_comm s.base]

/-- What is sought at first is found at the end. -/
theorem result_finish : s.finish.result = s.sought := by
  fun_induction finish s with
  | case1 s hdone =>
    have hzero : s.exponent.toNat = 0 := congrArg BitVec.toNat hdone
    rw [sought, hzero, pow_zero, mul_one]
  | case2 s _ ih => rw [ih, sought_round]

theorem exponent_iterate (k : Nat) : (round^[k] s).exponent = s.exponent >>> k := by
  induction k with
  | zero => rw [Function.iterate_zero_apply, BitVec.ushiftRight_zero]
  | succ k ih => rw [Function.iterate_succ_apply', round, ih, BitVec.shiftRight_add]

/-- The loop ends with the first round after which no bit is left. -/
theorem finish_eq_iterate :
    ∃ rounds, IsLeast {k | (round^[k] s).exponent = 0} rounds ∧ s.finish = round^[rounds] s := by
  fun_induction finish s with
  | case1 s hdone => exact ⟨0, ⟨hdone, fun k _ => Nat.zero_le k⟩, rfl⟩
  | case2 s hleft ih =>
    obtain ⟨rounds, ⟨hdone, hleast⟩, hfinish⟩ := ih
    refine ⟨rounds + 1, ⟨hdone, ?_⟩, hfinish⟩
    rintro (_ | k) hk
    · exact absurd hk hleft
    · exact Nat.succ_le_succ (hleast hk)

/-- A word has 256 bits, and each round takes one. -/
theorem rounds_le {rounds : Nat} (h : IsLeast {k | (round^[k] s).exponent = 0} rounds) :
    rounds ≤ 256 := by
  apply h.2
  show (round^[256] s).exponent = 0
  rw [exponent_iterate]
  exact BitVec.ushiftRight_eq_zero (Nat.le_refl _)

end Squaring

theorem toNat_pow (x : Word) (n : Nat) : (x ^ n).toNat = x.toNat ^ n % 2 ^ 256 := by
  induction n with
  | zero => rfl
  | succ n ih => rw [pow_succ, BitVec.toNat_mul, ih, Nat.mod_mul_mod, ← pow_succ]

theorem toNat_exp (base exponent : Word) :
    (exp base exponent).toNat = base.toNat ^ exponent.toNat % 2 ^ 256 := by
  rw [exp, Squaring.result_finish, Squaring.sought, one_mul, toNat_pow]

/-! ## The length of the exponent -/

theorem byteLength_le_iff (x : Word) (len : Nat) : x.byteLength ≤ len ↔ x.toNat < 256 ^ len := by
  have hsize : x.byteLength = (Bytes.ofNumberShortest x.toNat).size := by
    unfold byteLength Bytes.ofNumberShortest
    split <;> rw [Bytes.size_ofNumber]
  rw [hsize, Bytes.size_ofNumberShortest_le_iff]

/-- The lengths of the strings of bytes that spell a word. -/
def SpelledIn (x : Word) : Set Nat :=
  {len | ∃ b : Bytes, b.size = len ∧ Bytes.number b 0 len = x.toNat}

/-- No shorter string of bytes spells the word. -/
theorem isLeast_byteLength (x : Word) : IsLeast x.SpelledIn x.byteLength := by
  constructor
  · have hfits := (byteLength_le_iff x _).mp (Nat.le_refl _)
    exact ⟨Bytes.ofNumber x.toNat x.byteLength, Bytes.size_ofNumber _ _,
      Bytes.number_ofNumber_of_lt hfits⟩
  · rintro len ⟨b, _, hspells⟩
    rw [byteLength_le_iff, ← hspells]
    exact Bytes.number_lt b 0 len

/-! ## The instruction -/

end Word

namespace Exec

theorem execute_exp {η : Type} [Host η] {x : Exec η} (pc : Nat) {base exponent : Word}
    {rest : Stack} (hstack : x.frame.stack = base :: exponent :: rest)
    (hroom : rest.length < Stack.limit) :
    execute .exp pc x =
      if x.frame.gas.remaining < 50 * exponent.byteLength then
        .error .outOfGas (x.withStack rest)
      else .ok .next
        ((x.spend (50 * exponent.byteLength)).withStack (Word.exp base exponent :: rest)) := by
  have hoperands : execute .exp pc x =
      (do charge (Gas.exp exponent); push (Word.exp base exponent); return .next : StepM η Step)
        (x.withStack rest) := by
    simp only [execute]
    rw [bind_apply, pop_cons hstack]
    simp only
    rw [bind_apply, pop_cons (withStack_stack _ _)]
    rfl
  rw [hoperands, bind_apply, charge_apply, withStack_gas, Gas.exp]
  by_cases hpoor : x.frame.gas.remaining < 50 * exponent.byteLength
  · rw [if_pos hpoor, if_pos hpoor]
  · rw [if_neg hpoor, if_neg hpoor]
    simp only
    rw [bind_apply, push_room _ hroom]
    rfl

end Exec

namespace Word

/-- **The power of two words** is the power of their values, modulo `2 ^ 256`;
    the power with exponent zero is one. The loop ends after at most 256 rounds,
    the first time that no bit of the exponent is left, and what it holds then
    is the power. The instruction takes 50 gas for each byte of the shortest
    string of bytes that spells the exponent, and halts if they are not there. -/
theorem exp_is_power (base exponent : Word) :
    (∃ rounds, IsLeast {k | (Squaring.round^[k] ⟨1, base, exponent⟩).exponent = 0} rounds ∧
      rounds ≤ 256 ∧ exp base exponent = (Squaring.round^[rounds] ⟨1, base, exponent⟩).result) ∧
    (exp base exponent).toNat = base.toNat ^ exponent.toNat % 2 ^ 256 ∧
    exp base 0 = 1 ∧
    ∃ len, IsLeast exponent.SpelledIn len ∧
      ∀ {η : Type} [Host η] (x : Exec η) (pc : Nat) (rest : Stack),
        x.frame.stack = base :: exponent :: rest → rest.length < Stack.limit →
        Exec.execute .exp pc x =
          if x.frame.gas.remaining < 50 * len then .error .outOfGas (x.withStack rest)
          else .ok .next ((x.spend (50 * len)).withStack (exp base exponent :: rest)) := by
  refine ⟨?_, toNat_exp base exponent, ?_, exponent.byteLength, isLeast_byteLength exponent,
    fun x pc rest hstack hroom => Exec.execute_exp pc hstack hroom⟩
  · obtain ⟨rounds, hleast, hfinish⟩ := Squaring.finish_eq_iterate ⟨1, base, exponent⟩
    exact ⟨rounds, hleast, Squaring.rounds_le _ hleast, congrArg Squaring.result hfinish⟩
  · apply BitVec.eq_of_toNat_eq
    rw [toNat_exp]
    rfl

/-- A power that wraps around to zero, of an exponent of two bytes: 99 gas do not
    pay for it, and 100 do. -/
theorem exp_is_power_two_bytes :
    let host : Engine Database := .new .empty .default (.ofHardfork .cancun)
    let frame (gas : Nat) : Frame :=
      { Frame.start ByteArray.empty (.analyze ByteArray.empty)
          ⟨.zero, .zero, 0, ByteArray.empty, false, 0⟩ gas .cancun with stack := [2, 0x101, 7] }
    exp 2 0x101 = 0 ∧ exp 0 0 = 1 ∧
      (∃ y, Exec.execute .exp 0 ⟨frame 99, host⟩ = .error .outOfGas y) ∧
      ∃ y, Exec.execute .exp 0 ⟨frame 100, host⟩ = .ok .next y ∧ y.frame.gas.remaining = 0 ∧
        y.frame.stack = [0, 7] := by
  intro host frame
  obtain ⟨_, hvalue, _, len, hleast, hcharge⟩ := exp_is_power 2 0x101
  have hzero : exp 2 0x101 = 0 := BitVec.eq_of_toNat_eq (hvalue.trans (by decide +kernel))
  have hlen : len = 2 := hleast.unique (isLeast_byteLength _)
  subst hlen
  refine ⟨hzero, (exp_is_power 0 0).2.2.1, ⟨_, hcharge ⟨frame 99, host⟩ 0 [7] rfl (by decide)⟩,
    _, hcharge ⟨frame 100, host⟩ 0 [7] rfl (by decide), rfl, ?_⟩
  rw [Exec.withStack_stack, hzero]

end Word

end Evm
