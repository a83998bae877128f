import Twister.Proofs.Block.Rewinding

/-!
# What a seeded block tells of its seed

A word of a seeded block holds the upper half of a value `z` of the linear congruential generator
and the upper half of `69069 * z`. This does not determine `z`: two values with the same word
differ by `62184` or `62183` if they differ at all. But then the upper halves of what follows
two steps later are not the same. So any two consecutive words give the value they start from
(`eq_of_word_eq`), and as the generator can be run backwards, they give the seed, up to the low
bit that is set anyway.

The blocks are regenerated before a word is drawn from them. This forgets the low 31 bits of
the first word, and nothing of the second and the third.

* `getElem_ofSeed`: the words of a seeded block, one by one;
* `regenerate_ofSeed_eq_iff`: the low bit is the only part of a seed that is lost.
-/

namespace Twister

namespace Seeded

/-! ## Words and values -/

theorem toNat_lcg (z : Word) : (lcg z).toNat = (69069 * z.toNat + 1) % 4294967296 := by
  rw [lcg, UInt32.toNat_add, UInt32.toNat_mul]
  change (69069 * z.toNat % 4294967296 + 1) % 4294967296 = _
  omega

theorem toNat_lcg_lcg (z : Word) :
    (lcg (lcg z)).toNat = (69069 * (69069 * z.toNat + 1) + 1) % 4294967296 := by
  rw [toNat_lcg, toNat_lcg]
  omega

theorem toNat_word (z : Word) :
    (word z).toNat = (69069 * z.toNat % 4294967296) >>> 16 ||| (z.toNat &&& 0xffff0000) := by
  rw [word, UInt32.toNat_or, UInt32.toNat_shiftRight, UInt32.toNat_mul]
  rfl

/-- The upper half of a seeded word is that of the value it is made at. -/
theorem toNat_word_div (z : Word) : (word z).toNat / 65536 = z.toNat / 65536 := by
  have hz := z.toNat_lt
  change (word z).toNat / 2 ^ 16 = z.toNat / 2 ^ 16
  rw [toNat_word, ← Nat.shiftRight_eq_div_pow, Nat.shiftRight_or_distrib,
    Nat.shiftRight_and_distrib, ← Nat.shiftRight_add, Nat.shiftRight_eq_div_pow,
    Nat.div_eq_of_lt (Nat.mod_lt _ (by decide)), Nat.zero_or, Nat.shiftRight_eq_div_pow]
  change z.toNat / 2 ^ 16 &&& (2 ^ 16 - 1) = _
  rw [Nat.and_two_pow_sub_one_eq_mod]
  omega

/-- The lower half of a seeded word is the upper half of the product. -/
theorem toNat_word_mod (z : Word) :
    (word z).toNat % 65536 = 69069 * z.toNat % 4294967296 / 65536 := by
  change (word z).toNat % 2 ^ 16 = _
  rw [toNat_word, ← Nat.and_two_pow_sub_one_eq_mod, Nat.and_or_distrib_right, Nat.and_assoc]
  change (_ &&& (2 ^ 16 - 1)) ||| (z.toNat &&& 0) = _
  rw [Nat.and_two_pow_sub_one_eq_mod, Nat.and_zero, Nat.or_zero, Nat.shiftRight_eq_div_pow]
  omega

/-! ## Values of the same words -/

/-- Numbers whose words have the same upper half differ, modulo `2 ^ 32`, by less than
    `2 ^ 16`. -/
theorem exists_close_of_upper_eq {m n : Nat}
    (h : m % 4294967296 / 65536 = n % 4294967296 / 65536) :
    ∃ k : Int, -65536 < (m : Int) - n - 4294967296 * k ∧
      (m : Int) - n - 4294967296 * k < 65536 := by
  refine ⟨(m / 4294967296 : Nat) - (n / 4294967296 : Nat), ?_, ?_⟩ <;> omega

/-- No difference other than `0` stays small when it is multiplied by `69069` once and twice. -/
theorem eq_zero_of_close {e k l : Int} (hlo : -65536 < e) (hhi : e < 65536)
    (hlo₁ : -65536 < 69069 * e - 4294967296 * k) (hhi₁ : 69069 * e - 4294967296 * k < 65536)
    (hlo₂ : -65536 < 69069 * (69069 * e) - 4294967296 * l)
    (hhi₂ : 69069 * (69069 * e) - 4294967296 * l < 65536) : e = 0 := by
  -- The product is less than twice `2 ^ 32`, so it wraps once or not at all; if it wraps, two
  -- differences of each sign are left, and these do not stay small a second time.
  have hk : k = -1 ∨ k = 0 ∨ k = 1 := by omega
  rcases hk with hk | hk | hk
  · have he : e = -62184 ∨ e = -62183 := by omega
    rcases he with he | he <;> omega
  · omega
  · have he : e = 62184 ∨ e = 62183 := by omega
    rcases he with he | he <;> omega

/-- Two consecutive words of a seeded block give the value the first of them is made at. -/
theorem eq_of_word_eq {z z' : Word} (h : word z = word z')
    (hnext : word (lcg (lcg z)) = word (lcg (lcg z'))) : z = z' := by
  have hz := z.toNat_lt
  have hz' := z'.toNat_lt
  have hupper : z.toNat / 65536 = z'.toNat / 65536 := by
    rw [← toNat_word_div, h, toNat_word_div]
  have hproduct : 69069 * z.toNat % 4294967296 / 65536 =
      69069 * z'.toNat % 4294967296 / 65536 := by
    rw [← toNat_word_mod, h, toNat_word_mod]
  have hlater : (69069 * (69069 * z.toNat + 1) + 1) % 4294967296 / 65536 =
      (69069 * (69069 * z'.toNat + 1) + 1) % 4294967296 / 65536 := by
    rw [← toNat_lcg_lcg, ← toNat_lcg_lcg, ← toNat_word_div, hnext, toNat_word_div]
  -- The values differ by little, and so do their products, up to a multiple of `2 ^ 32`.
  obtain ⟨k, hlo₁, hhi₁⟩ := exists_close_of_upper_eq hproduct
  obtain ⟨l, hlo₂, hhi₂⟩ := exists_close_of_upper_eq hlater
  have hdiff : (z.toNat : Int) - z'.toNat = 0 :=
    eq_zero_of_close (by omega) (by omega) (k := k) (by omega) (by omega) (l := l) (by omega)
      (by omega)
  apply UInt32.toNat_inj.1
  omega

/-- The generator can be run backwards: its multiplier is odd, and so has an inverse. -/
theorem lcg_injective : Function.Injective lcg := by
  intro z z' h
  have hinverse : (2783094533 : Word) * multiplier = 1 := by decide
  have hproduct : multiplier * z = multiplier * z' := (UInt32.add_left_inj 1).1 h
  calc z = 2783094533 * (multiplier * z) := by rw [← UInt32.mul_assoc, hinverse, UInt32.one_mul]
    _ = 2783094533 * (multiplier * z') := by rw [hproduct]
    _ = z' := by rw [← UInt32.mul_assoc, hinverse, UInt32.one_mul]

theorem getElem_row {n : Nat} (z : Word) {i : Nat} (hi : i < (row n z).length) :
    (row n z)[i] = word (lcg^[2 * i] z) := by
  induction n generalizing z i with
  | zero => exact absurd hi (Nat.not_lt_zero i)
  | succ n ih =>
    cases i with
    | zero => rfl
    | succ i =>
      rw [Nat.mul_succ, Function.iterate_succ_apply, Function.iterate_succ_apply]
      exact ih (lcg (lcg z)) (Nat.lt_of_succ_lt_succ hi)

end Seeded

namespace Block

open Seeded (lcg word)

/-- The words of a seeded block are made at every second value of the generator. -/
theorem getElem_ofSeed (seed : Word) {i : Nat} (hi : i < 624) :
    (ofSeed seed)[i] = word (lcg^[2 * i] (seed ||| 1)) := by
  simp only [ofSeed, Vector.getElem_mk, List.getElem_toArray, Seeded.getElem_row]

/-- The low bit is the only part of a seed that is lost. -/
theorem regenerate_ofSeed_eq_iff {seed seed' : Word} :
    (ofSeed seed).regenerate = (ofSeed seed').regenerate ↔ seed ||| 1 = seed' ||| 1 := by
  constructor
  · intro h
    obtain ⟨-, hwords⟩ := regenerate_eq_iff.1 h
    -- The first words may differ; the second and the third give the value two steps on.
    have hsecond := hwords 1 (by decide) (by decide)
    have hthird := hwords 2 (by decide) (by decide)
    rw [getElem_ofSeed, getElem_ofSeed] at hsecond hthird
    exact Seeded.lcg_injective (Seeded.lcg_injective (Seeded.eq_of_word_eq hsecond hthird))
  · intro h
    have hblock : ofSeed seed = ofSeed seed' := by
      ext i hi
      rw [getElem_ofSeed, getElem_ofSeed, h]
    rw [hblock]

end Block

end Twister
