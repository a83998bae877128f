import Twister.Word.Basic
import Mathlib.Logic.Function.Basic

/-!
# Linear maps of words

A word is a vector of 32 bits, and exclusive or is the addition of such vectors. The maps the
generator is built from are *linear* for it (`Word.Linear`): a shift, a mask, and sums and
compositions of these. A linear map is injective as soon as it sends no other word than `0` to
`0`, and this is how tempering is seen to lose nothing: a sum of a word and its shifted copy
is `0` only if the word is its own shifted copy, and then all its bits have been shifted out.

* `Linear.injective`: a linear map with a trivial kernel is injective;
* `linear_temper`, `temper_injective`: tempering is linear and can be undone.
-/

namespace Twister.Word

/-- A map of words is linear if it sends sums of words to the sums of their images. -/
def Linear (f : Word → Word) : Prop :=
  ∀ v w, f (v ^^^ w) = f v ^^^ f w

theorem Linear.comp {f g : Word → Word} (hf : Linear f) (hg : Linear g) : Linear (f ∘ g) := by
  intro v w
  rw [Function.comp_apply, hg, hf, Function.comp_apply, Function.comp_apply]

theorem Linear.map_zero {f : Word → Word} (hf : Linear f) : f 0 = 0 := by
  have hsum := hf 0 0
  rwa [UInt32.xor_self, UInt32.xor_self] at hsum

theorem Linear.injective {f : Word → Word} (hf : Linear f) (h : ∀ w, f w = 0 → w = 0) :
    Function.Injective f := by
  intro v w hvw
  have hsum : f (v ^^^ w) = 0 := by rw [hf, hvw, UInt32.xor_self]
  exact UInt32.xor_eq_zero_iff.1 (h _ hsum)

/-- The sums of a four-fold sum may be taken in another order. -/
theorem xor_xor_xor_comm (a b c d : Word) : a ^^^ b ^^^ (c ^^^ d) = a ^^^ c ^^^ (b ^^^ d) := by
  ac_rfl

theorem xor_and (v w mask : Word) : (v ^^^ w) &&& mask = (v &&& mask) ^^^ (w &&& mask) := by
  apply UInt32.toBitVec_inj.1
  ext i
  simp [Bool.and_xor_distrib_right]

/-! ## Mixing -/

theorem linear_mixRight (distance : Word) : Linear (mixRight distance) := by
  intro v w
  rw [mixRight, mixRight, mixRight, UInt32.shiftRight_xor, xor_xor_xor_comm]

theorem linear_mixLeft (distance mask : Word) : Linear (mixLeft distance mask) := by
  intro v w
  rw [mixLeft, mixLeft, mixLeft, UInt32.shiftLeft_xor, xor_and, xor_xor_xor_comm]

/-- A word that is its own copy shifted to the right has no bits. -/
theorem eq_zero_of_mixRight {distance w : Word} (hpos : 0 < distance.toNat % 32)
    (h : mixRight distance w = 0) : w = 0 := by
  have hw : w = w >>> distance := UInt32.xor_eq_zero_iff.1 h
  have hn : w.toNat = w.toNat / 2 ^ (distance.toNat % 32) := by
    rw [← Nat.shiftRight_eq_div_pow, ← UInt32.toNat_shiftRight, ← hw]
  apply UInt32.toNat_inj.1
  -- A number other than `0` is greater than any part of it.
  by_contra hne
  have hlt := Nat.div_lt_self (Nat.pos_of_ne_zero hne) (Nat.one_lt_two_pow (Nat.ne_of_gt hpos))
  exact absurd hn (Nat.ne_of_gt hlt)

/-- A word that is part of its own copy shifted to the left has no bits: the lowest of them
    would have come from a lower one. -/
theorem eq_zero_of_mixLeft {distance mask w : Word} (hpos : 0 < distance.toNat % 32)
    (h : mixLeft distance mask w = 0) : w = 0 := by
  have hw : w = (w <<< distance) &&& mask := UInt32.xor_eq_zero_iff.1 h
  have hbits : ∀ i, w.toBitVec.getLsbD i = false := by
    -- Induction on the place of the bit: the bit it is moved from has a lower place.
    intro i
    induction i using Nat.strongRecOn with
    | ind i ih =>
      have hd : (distance.toBitVec % 32).toNat = distance.toNat % 32 := rfl
      rw [hw, UInt32.toBitVec_and, UInt32.toBitVec_shiftLeft, BitVec.getLsbD_and,
        BitVec.shiftLeft_eq', BitVec.getLsbD_shiftLeft, hd]
      by_cases hi : i < distance.toNat % 32
      · simp [hi]
      · simp [ih (i - distance.toNat % 32) (by omega)]
  apply UInt32.toBitVec_inj.1
  refine BitVec.eq_of_getLsbD_eq fun i _ => ?_
  rw [hbits, UInt32.toBitVec_zero, BitVec.getLsbD_zero]

/-! ## Tempering -/

theorem linear_temper : Linear temper :=
  (linear_mixRight _).comp ((linear_mixLeft _ _).comp
    ((linear_mixLeft _ _).comp (linear_mixRight _)))

/-- Different words of a block give different outputs. -/
theorem temper_injective : Function.Injective temper := by
  have hr {distance : Word} (hpos : 0 < distance.toNat % 32) :
      Function.Injective (mixRight distance) :=
    (linear_mixRight distance).injective fun _ => eq_zero_of_mixRight hpos
  have hl {distance mask : Word} (hpos : 0 < distance.toNat % 32) :
      Function.Injective (mixLeft distance mask) :=
    (linear_mixLeft distance mask).injective fun _ => eq_zero_of_mixLeft hpos
  exact (hr (by decide)).comp ((hl (by decide)).comp ((hl (by decide)).comp (hr (by decide))))

end Twister.Word
