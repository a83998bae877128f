import Twister.Proofs.Block.Seeds

/-!
# Dead blocks

The recurrence makes zeros of zeros. So the block of zeros is followed by itself for ever, and it
follows every block whose only bits are the low 31 bits of the first word, which the recurrence does
not take. Such a block is *dead* (`Block.Dead`). As the recurrence can be rewound, other blocks
never lead to zeros.

Seeded blocks are not dead. A zero word is made at two values of the linear congruential generator
only, `0` and `62184`, both of them even; but the generator starts at an odd value, and two of its
steps keep a value odd.

* `window_succ_eq_zero_iff`, `dead_iff`: a block leads to zeros exactly if it is dead;
* `getElem_ofSeed_ne_zero`: a seeded block has no zero word;
* `window_ofSeed_ne_zero`, `not_dead_window_ofSeed`: no seeded block leads to zeros.
-/

namespace Twister

namespace Seeded

theorem lcg_lcg_odd {z : Word} (h : z.toNat % 2 = 1) : (lcg (lcg z)).toNat % 2 = 1 := by
  rw [toNat_lcg_lcg]
  omega

theorem iterate_lcg_odd {z : Word} (h : z.toNat % 2 = 1) (i : Nat) :
    (lcg^[2 * i] z).toNat % 2 = 1 := by
  induction i with
  | zero => exact h
  | succ i ih =>
    rw [Nat.mul_succ, Function.iterate_succ_apply', Function.iterate_succ_apply']
    exact lcg_lcg_odd ih

/-- A zero word is made at `0` and at `62184` only. -/
theorem eq_of_word_eq_zero {z : Word} (h : word z = 0) : z.toNat = 0 ∨ z.toNat = 62184 := by
  have hupper : z.toNat / 65536 = 0 := by
    rw [← toNat_word_div, h]
    rfl
  have hlower : 69069 * z.toNat % 4294967296 / 65536 = 0 := by
    rw [← toNat_word_mod, h]
    rfl
  -- The product wraps once or not at all.
  have hwraps : 69069 * z.toNat / 4294967296 = 0 ∨ 69069 * z.toNat / 4294967296 = 1 := by omega
  rcases hwraps with hwraps | hwraps
  · exact .inl (by omega)
  · exact .inr (by omega)

theorem word_ne_zero {z : Word} (h : z.toNat % 2 = 1) : word z ≠ 0 := by
  intro hzero
  have hz := eq_of_word_eq_zero hzero
  omega

end Seeded

namespace Block

variable {words : Block}

/-- The only bits of the block are among the low 31 of its first word. -/
def Dead (words : Block) : Prop :=
  words.head.top = 0 ∧ ∀ i (_ : i < 624), 0 < i → words[i] = 0

/-! ## Zeros -/

theorem zero_window (m : Nat) : zero.window m = zero := by
  refine Vector.ext fun i hi => ?_
  rw [getElem_window, zero_term, getElem_zero]

/-- A dead block has windows of zeros only, and other blocks have none. -/
theorem window_succ_eq_zero_iff {m : Nat} : words.window (m + 1) = zero ↔ words.Dead := by
  have hhead : zero.head = 0 := getElem_zero (Nat.zero_lt_succ 623)
  rw [← zero_window (m + 1), window_succ_eq_iff, hhead]
  simp only [getElem_zero]
  rfl

/-- All blocks that follow a dead block are zero, and no other block is followed so. -/
theorem dead_iff : words.Dead ↔ ∀ q, regenerate^[q + 1] words = zero := by
  have hblock (q : Nat) : regenerate^[q + 1] words = words.window (624 * q + 623 + 1) := by
    rw [iterate_regenerate, Nat.mul_succ]
  constructor
  · intro h q
    rw [hblock, window_succ_eq_zero_iff]
    exact h
  · intro h
    have hfirst := h 0
    rwa [hblock, window_succ_eq_zero_iff] at hfirst

/-! ## Seeded blocks -/

theorem getElem_ofSeed_ne_zero (seed : Word) {i : Nat} (hi : i < 624) : (ofSeed seed)[i] ≠ 0 := by
  rw [getElem_ofSeed]
  have hodd : (seed ||| 1).toNat % 2 = 1 := by
    rw [UInt32.toNat_or]
    exact Nat.or_mod_two_eq_one.2 (.inr rfl)
  exact Seeded.word_ne_zero (Seeded.iterate_lcg_odd hodd i)

theorem window_ofSeed_ne_zero (seed : Word) (m : Nat) : (ofSeed seed).window (m + 1) ≠ zero := by
  intro h
  obtain ⟨-, hwords⟩ := window_succ_eq_zero_iff.1 h
  exact getElem_ofSeed_ne_zero seed (Nat.one_lt_succ_succ 622) (hwords 1 _ Nat.one_pos)

theorem not_dead_window_ofSeed (seed : Word) (m : Nat) : ¬((ofSeed seed).window (m + 1)).Dead := by
  intro h
  have hlater := (window_succ_eq_zero_iff (m := 0)).2 h
  rw [window_window] at hlater
  exact window_ofSeed_ne_zero seed (m + 1) hlater

end Block

end Twister
