/-!
# Taps on sequences of bits

A polynomial over the field of two elements acts on sequences of bits, its indeterminate as a step
to the next place. So its coefficients are *taps*: they select places, counted from the place
looked at, and the bits found there are added. A polynomial is written as the number that has its
coefficients as binary digits; polynomials are then added by exclusive or, and multiplied by powers
of the indeterminate by shifting.

A polynomial *annihilates* a sequence if it makes zeros of it. The polynomials that do so are
closed under sums and multiples. So a sequence annihilated by two polynomials without a common
factor is zero, being annihilated by `1`, and that they have none is shown by a computation, once
the multiples of them that add up to `1` are given.

* `tap_xor`, `tap_shiftLeft`: the operations on polynomials, seen on a sequence;
* `Annihilates.mul`: the multiples of a polynomial that annihilates a sequence;
* `Annihilates.eq_false`: a sequence annihilated by two polynomials, of which multiples add up to
  `1`, is zero.
-/

namespace Twister

/-- The sum of the bits of a sequence at the places that the binary digits of a polynomial select,
    counted from place `k`. -/
def tap (polynomial : Nat) (bits : Nat → Bool) (k : Nat) : Bool :=
  if polynomial = 0 then false
  else (decide (polynomial % 2 = 1) && bits k) ^^ tap (polynomial / 2) bits (k + 1)
  termination_by polynomial

variable {p q : Nat} {bits : Nat → Bool}

/-- The sums of a four-fold sum of bits may be taken in another order. -/
theorem bit_xor_xor_xor_comm (a b c d : Bool) : (a ^^ b ^^ (c ^^ d)) = (a ^^ c ^^ (b ^^ d)) := by
  rw [Bool.xor_assoc, Bool.xor_assoc, Bool.xor_left_comm b]

@[simp]
theorem tap_zero (bits : Nat → Bool) (k : Nat) : tap 0 bits k = false := by
  rw [tap, if_pos rfl]

/-- The lowest coefficient, and the others one place further on. -/
theorem tap_eq (p : Nat) (bits : Nat → Bool) (k : Nat) :
    tap p bits k = ((decide (p % 2 = 1) && bits k) ^^ tap (p / 2) bits (k + 1)) := by
  by_cases hp : p = 0
  · simp [hp]
  · rw [tap, if_neg hp]

@[simp]
theorem tap_one (bits : Nat → Bool) (k : Nat) : tap 1 bits k = bits k := by
  rw [tap_eq]
  simp

theorem tap_xor (p q : Nat) (bits : Nat → Bool) (k : Nat) :
    tap (p ^^^ q) bits k = (tap p bits k ^^ tap q bits k) := by
  induction p using Nat.strongRecOn generalizing q k with
  | ind p ih =>
    by_cases hp : p = 0
    · simp [hp]
    · have hlow : decide ((p ^^^ q) % 2 = 1) = (decide (p % 2 = 1) ^^ decide (q % 2 = 1)) := by
        rw [← Nat.testBit_zero, ← Nat.testBit_zero, ← Nat.testBit_zero, Nat.testBit_xor]
      rw [tap_eq, tap_eq p, tap_eq q, Nat.xor_div_two, ih (p / 2) (by omega), hlow,
        Bool.and_xor_distrib_right, bit_xor_xor_xor_comm]

theorem tap_ite (b : Bool) (p : Nat) (bits : Nat → Bool) (k : Nat) :
    tap (if b then p else 0) bits k = (b && tap p bits k) := by
  cases b with
  | false => exact tap_zero bits k
  | true => rfl

theorem tap_two_mul (p : Nat) (bits : Nat → Bool) (k : Nat) :
    tap (2 * p) bits k = tap p bits (k + 1) := by
  rw [tap_eq, Nat.mul_mod_right, Nat.mul_div_cancel_left p Nat.two_pos]
  simp

@[simp]
theorem tap_false (p k : Nat) : tap p (fun _ => false) k = false := by
  induction p using Nat.strongRecOn generalizing k with
  | ind p ih =>
    by_cases hp : p = 0
    · rw [hp, tap_zero]
    · rw [tap_eq, ih (p / 2) (by omega), Bool.and_false, Bool.xor_false]

theorem tap_shiftLeft (p n : Nat) (bits : Nat → Bool) (k : Nat) :
    tap (p <<< n) bits k = tap p bits (k + n) := by
  induction n generalizing k with
  | zero => rfl
  | succ n ih => rw [Nat.shiftLeft_succ, tap_two_mul, ih, Nat.add_right_comm, Nat.add_assoc]

/-! ## Annihilation -/

/-- A polynomial makes zeros of a sequence. -/
def Annihilates (polynomial : Nat) (bits : Nat → Bool) : Prop :=
  ∀ k, tap polynomial bits k = false

/-- The sum of the multiples of a polynomial by those of the first `n` powers of the indeterminate
    that a factor selects. -/
def multiple (polynomial factor : Nat) : Nat → Nat
  | 0 => 0
  | n + 1 =>
    multiple polynomial factor n ^^^ if factor.testBit n then polynomial <<< n else 0

theorem Annihilates.xor (hp : Annihilates p bits) (hq : Annihilates q bits) :
    Annihilates (p ^^^ q) bits := by
  intro k
  rw [tap_xor, hp k, hq k]
  rfl

theorem Annihilates.mul (h : Annihilates p bits) (factor n : Nat) :
    Annihilates (multiple p factor n) bits := by
  induction n with
  | zero => exact tap_zero bits
  | succ n ih =>
    refine ih.xor fun k => ?_
    rw [tap_ite, tap_shiftLeft, h, Bool.and_false]

/-- A sequence is zero if it is annihilated by two polynomials of which multiples add up to
    `1`. -/
theorem Annihilates.eq_false (hp : Annihilates p bits) (hq : Annihilates q bits)
    {factor factor' m n : Nat}
    (hsum : multiple p factor m ^^^ multiple q factor' n = 1) (k : Nat) : bits k = false := by
  have hone := (hp.mul factor m).xor (hq.mul factor' n)
  rw [hsum] at hone
  rw [← tap_one bits k, hone]

end Twister
