import Twister.Proofs.Block.Dead
import Twister.Proofs.Word.Taps

/-!
# No block repeats

A block that is followed by itself starts a sequence of period 624. Only the block of zeros does so.

As `624 = 16 * 39`, it is enough to look for the period 39: if a sequence has the period `2 * p`,
its sum with itself `p` places on has the period `p`, and if this sum is zero, the sequence has
the period `p` itself. So from a sequence of period 624 that is not zero one of period 39 is made
in four steps.

In a sequence of period 39 the word 624 places on is the same word, and the far word stands 7
places on. The recurrence then gives the bits that the matrix is applied to (`Block.spliced`) one
after the other, from the lowest to the top bit, by sums of top bits (`reach`). In the end top
bits are sums of top bits: a polynomial annihilates their sequence. It has no common factor with
the polynomial of the period, so that the top bits are zero, and with them all other bits.

* `eq_zero_of_window_two_mul_eq`, `eq_zero_of_window_iterate_eq`: from a period to half of it, and
  so on;
* `bit_spliced_eq_tap`: the bits of a sequence of period 39, from its top bits;
* `eq_zero_of_window_39_eq`: a sequence of period 39 is zero;
* `regenerate_eq_self_iff`: no other block than that of zeros is followed by itself.
-/

namespace Twister.Block

open Word (matrixRow shiftOut)

variable {words : Block}

theorem term_add_of_window_eq {p : Nat} (h : words.window p = words) (k : Nat) :
    words.term (k + p) = words.term k := by
  rw [Nat.add_comm, ← term_window, h]

theorem term_add_mul_of_window_eq {p : Nat} (h : words.window p = words) (k n : Nat) :
    words.term (k + p * n) = words.term k := by
  induction n with
  | zero => rfl
  | succ n ih => rw [Nat.mul_succ, ← Nat.add_assoc, term_add_of_window_eq h, ih]

/-- If only zeros have a period, only zeros have twice this period. -/
theorem eq_zero_of_window_two_mul_eq {p : Nat}
    (hzero : ∀ words : Block, words.window p = words → words = zero)
    (h : words.window (2 * p) = words) : words = zero := by
  -- Moved by `p` places, the two blocks of the sum change places.
  have hsum : words ^^^ words.window p = zero := by
    refine hzero _ ?_
    rw [window_xor, window_window, ← Nat.two_mul, h, xor_comm]
  exact hzero words (xor_eq_zero_iff.1 hsum).symm

/-- So it is for a period that is doubled several times. -/
theorem eq_zero_of_window_iterate_eq {p : Nat}
    (hzero : ∀ words : Block, words.window p = words → words = zero) (n : Nat)
    (h : words.window ((2 * ·)^[n] p) = words) : words = zero := by
  induction n generalizing words with
  | zero => exact hzero words h
  | succ n ih =>
    rw [Function.iterate_succ_apply'] at h
    exact eq_zero_of_window_two_mul_eq (fun _ => ih) h

/-! ## The period 39 -/

theorem bit_spliced_last (words : Block) (k : Nat) :
    (words.spliced k).bit 31 = (words.term k).bit 31 :=
  Word.bit_splice_last _ _

theorem bit_spliced_of_lt (words : Block) (k : Nat) {i : Nat} (hi : i < 31) :
    (words.spliced k).bit i = (words.term (k + 1)).bit i :=
  Word.bit_splice_of_lt _ _ hi

/-- The recurrence in a sequence of period 39. -/
theorem term_xor_term (h : words.window 39 = words) (k : Nat) :
    words.term k ^^^ words.term (k + 7) = shiftOut (words.spliced k) := by
  have hmade : words.term (k + 624) = words.term k := term_add_mul_of_window_eq h k 16
  have hfar : words.term (k + 397) = words.term (k + 7) := by
    rw [show k + 397 = k + 7 + 39 * 10 by omega, term_add_mul_of_window_eq h]
  rw [shiftOut_spliced, hmade, hfar]

theorem bit_term_xor_bit_term (h : words.window 39 = words) (k : Nat) {i : Nat} (hi : i < 32) :
    ((words.term k).bit i ^^ (words.term (k + 7)).bit i) =
      ((words.spliced k).bit (i + 1) ^^ ((words.spliced k).bit 0 && matrixRow.bit i)) := by
  rw [← Word.bit_xor, term_xor_term h, Word.bit_shiftOut _ hi]

/-- The lowest bit of a spliced word is a sum of two top bits. -/
theorem bit_spliced_zero (h : words.window 39 = words) (k : Nat) :
    (words.spliced k).bit 0 = ((words.spliced k).bit 31 ^^ (words.spliced (k + 7)).bit 31) := by
  have hrow : matrixRow.bit 31 = true := by decide
  rw [bit_spliced_last, bit_spliced_last, bit_term_xor_bit_term h k (by decide), hrow,
    Word.bit_of_le _ (Nat.le_refl 32), Bool.and_true, Bool.false_xor]

/-- A bit of a spliced word is a sum of two of the bits below it, one place before, and of the
    lowest bit if the last row of the matrix has this part. -/
theorem bit_spliced_succ (h : words.window 39 = words) (k : Nat) {i : Nat} (hi : i < 31) :
    (words.spliced (k + 1)).bit (i + 1) = ((words.spliced k).bit i ^^
      (words.spliced (k + 7)).bit i ^^ ((words.spliced (k + 1)).bit 0 && matrixRow.bit i)) := by
  have hbit := bit_term_xor_bit_term h (k + 1) (i := i) (by omega)
  rw [bit_spliced_of_lt _ k hi, bit_spliced_of_lt _ (k + 7) hi, Nat.add_right_comm k 7 1, hbit,
    Bool.xor_assoc, Bool.xor_self, Bool.xor_false]

/-! ## The bits from the top bits -/

/-- The sum of a bit and its far one. -/
def withFar (polynomial : Nat) : Nat :=
  polynomial ^^^ polynomial <<< 7

theorem tap_withFar (p : Nat) (bits : Nat → Bool) (k : Nat) :
    tap (withFar p) bits k = (tap p bits k ^^ tap p bits (k + 7)) := by
  rw [withFar, tap_xor, tap_shiftLeft]

/-- The polynomial that makes bit `i` of the spliced words, `i` places on, of their top bits. -/
def reach : Nat → Nat
  | 0 => withFar 1
  | i + 1 => withFar (reach i ^^^ if matrixRow.bit i then 1 <<< (i + 1) else 0)

/-- In a sequence of period 39 all bits of the spliced words come of their top bits. -/
theorem bit_spliced_eq_tap (h : words.window 39 = words) {i : Nat} (hi : i < 32) (k : Nat) :
    (words.spliced (k + i)).bit i = tap (reach i) (fun k => (words.spliced k).bit 31) k := by
  induction i generalizing k with
  | zero =>
    rw [reach, tap_withFar, tap_one, tap_one]
    exact bit_spliced_zero h k
  | succ i ih =>
    rw [reach, tap_withFar, tap_xor, tap_xor, tap_ite, tap_ite, tap_shiftLeft, tap_shiftLeft,
      tap_one, tap_one, bit_xor_xor_xor_comm, ← Bool.and_xor_distrib_left]
    rw [← ih (by omega), ← ih (by omega), Nat.add_right_comm k 7 i, Nat.add_right_comm k 7 (i + 1),
      ← bit_spliced_zero h, Bool.and_comm]
    exact bit_spliced_succ h (k + i) (by omega)

/-- The top bits of a sequence of period 39 are zero. -/
theorem bit_spliced_last_eq_false (h : words.window 39 = words) (k : Nat) :
    (words.spliced k).bit 31 = false := by
  have hreach : Annihilates (reach 31 ^^^ 1 <<< 31) fun k => (words.spliced k).bit 31 := by
    intro k
    rw [tap_xor, ← bit_spliced_eq_tap h (by decide), tap_shiftLeft, tap_one, Bool.xor_self]
  have hperiod : Annihilates (1 ^^^ 1 <<< 39) fun k => (words.spliced k).bit 31 := by
    intro k
    rw [tap_xor, tap_shiftLeft, tap_one, tap_one, bit_spliced_last, bit_spliced_last,
      term_add_of_window_eq h, Bool.xor_self]
  -- The two polynomials have no common factor: Euclid's algorithm gives these multiples of them.
  have hsum : multiple (reach 31 ^^^ 1 <<< 31) 0x3323aa2de7 39 ^^^
      multiple (1 ^^^ 1 <<< 39) 0x67db00f158f20fb3c3a5ae3053dd8df19665851606bf842f8828b39c 223 =
        1 := by
    decide +kernel
  exact hreach.eq_false hperiod hsum k

/-- A sequence of period 39 is zero. -/
theorem eq_zero_of_window_39_eq (h : words.window 39 = words) : words = zero := by
  have htop : (fun k => (words.spliced k).bit 31) = fun _ => false :=
    funext (bit_spliced_last_eq_false h)
  have hspliced {k : Nat} (hk : 31 ≤ k) : words.spliced k = 0 := by
    refine Word.eq_of_bit_eq fun i hi => ?_
    rw [show k = k - i + i by omega, bit_spliced_eq_tap h hi, htop, tap_false, Word.bit_zero]
  -- A word is found in two spliced words, and comes back 39 places on, where both are known.
  have hword {k : Nat} (hk : 31 ≤ k) : words.term (k + 1) = 0 := by
    have htop := congrArg Word.top (hspliced (k := k + 1) (by omega))
    have hlow := congrArg Word.low (hspliced hk)
    rw [spliced, Word.top_splice] at htop
    rw [spliced, Word.low_splice] at hlow
    exact Word.eq_of_top_eq_of_low_eq htop hlow
  refine Vector.ext fun i hi => ?_
  rw [← term_of_lt words hi, ← term_add_of_window_eq h, getElem_zero]
  exact hword (k := i + 38) (by omega)

/-- No other block than that of zeros is followed by itself. -/
theorem regenerate_eq_self_iff : words.regenerate = words ↔ words = zero := by
  have hdoubled : (2 * ·)^[4] 39 = 624 := rfl
  rw [regenerate_eq_window, ← hdoubled]
  constructor
  · exact eq_zero_of_window_iterate_eq (fun _ => eq_zero_of_window_39_eq) 4
  · rintro rfl
    exact zero_window _

end Twister.Block
