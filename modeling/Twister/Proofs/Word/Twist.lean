import Twister.Block.Basic
import Twister.Proofs.Word.Linear

/-!
# The twist, bit by bit

The twist selects the last row of the matrix by smearing a bit, the recurrence by a case
distinction; the two agree (`twist_eq_recur`). What is added to the far word is the image of the
spliced word under the matrix (`Word.shiftOut`), a linear map, and it can be undone: the row has
its top bit set, which the half of a word has not, so that the image tells whether a bit was
shifted out.

A spliced word holds one bit of a word (`Word.top`) and 31 bits of the next (`Word.low`). These
are all that the recurrence takes of the two words, and nothing of them is lost.

* `twist_eq_recur`: the twist computes the next word of the recurrence;
* `shiftOut_injective`, `shiftOut_eq_iff`: the matrix can be undone;
* `recur_inj`: with the same far word, the same next word is made exactly of the same top bit
  and the same low 31 bits.
-/

namespace Twister.Word

/-! ## Parts of a word -/

/-- The top bit of a word, in its place. -/
def top (w : Word) : Word := w &&& 0x80000000

/-- The low 31 bits of a word. -/
def low (w : Word) : Word := w &&& 0x7fffffff

theorem getElem_top (w : Word) {i : Nat} (hi : i < 32) :
    w.top.toBitVec[i] = (w.toBitVec[i] && decide (i = 31)) := by
  have hmask : ∀ i (_ : i < 32), (0x80000000 : Word).toBitVec[i] = decide (i = 31) := by decide
  rw [top, UInt32.toBitVec_and, BitVec.getElem_and, hmask]

theorem getElem_low (w : Word) {i : Nat} (hi : i < 32) :
    w.low.toBitVec[i] = (w.toBitVec[i] && decide (i < 31)) := by
  have hmask : ∀ i (_ : i < 32), (0x7fffffff : Word).toBitVec[i] = decide (i < 31) := by decide
  rw [low, UInt32.toBitVec_and, BitVec.getElem_and, hmask]

theorem getElem_splice (hi lo : Word) {i : Nat} (h : i < 32) :
    (splice hi lo).toBitVec[i] = if i = 31 then hi.toBitVec[i] else lo.toBitVec[i] := by
  change (hi.top ||| lo.low).toBitVec[i] = _
  rw [UInt32.toBitVec_or, BitVec.getElem_or, getElem_top, getElem_low]
  split
  · simp [*]
  · simp [*, show i < 31 by omega]

theorem splice_xor (hi hi' lo lo' : Word) :
    splice (hi ^^^ hi') (lo ^^^ lo') = splice hi lo ^^^ splice hi' lo' := by
  apply UInt32.toBitVec_inj.1
  ext i h
  rw [UInt32.toBitVec_xor, BitVec.getElem_xor, getElem_splice, getElem_splice, getElem_splice,
    UInt32.toBitVec_xor, UInt32.toBitVec_xor, BitVec.getElem_xor, BitVec.getElem_xor]
  split <;> rfl

theorem splice_self (w : Word) : splice w w = w := by
  apply UInt32.toBitVec_inj.1
  ext i hi
  rw [getElem_splice, ite_self]

theorem top_splice (hi lo : Word) : (splice hi lo).top = hi.top := by
  apply UInt32.toBitVec_inj.1
  ext i h
  rw [getElem_top, getElem_top, getElem_splice]
  split <;> simp [*]

theorem low_splice (hi lo : Word) : (splice hi lo).low = lo.low := by
  apply UInt32.toBitVec_inj.1
  ext i h
  rw [getElem_low, getElem_low, getElem_splice]
  split <;> simp [*]

theorem splice_inj {hi hi' lo lo' : Word} :
    splice hi lo = splice hi' lo' ↔ hi.top = hi'.top ∧ lo.low = lo'.low := by
  constructor
  · intro h
    rw [← top_splice hi lo, ← low_splice hi lo, h, top_splice, low_splice]
    exact ⟨rfl, rfl⟩
  · rintro ⟨ht, hl⟩
    change hi.top ||| lo.low = hi'.top ||| lo'.low
    rw [ht, hl]

/-- A word is known by its two parts. -/
theorem eq_of_top_eq_of_low_eq {v w : Word} (ht : v.top = w.top) (hl : v.low = w.low) : v = w := by
  rw [← splice_self v, ← splice_self w, splice_inj]
  exact ⟨ht, hl⟩

theorem toNat_low (w : Word) : w.low.toNat = w.toNat % 2147483648 := by
  rw [low, UInt32.toNat_and]
  exact Nat.and_two_pow_sub_one_eq_mod w.toNat 31

theorem low_low (w : Word) : w.low.low = w.low := by
  rw [← UInt32.toNat_inj, toNat_low, toNat_low, Nat.mod_mod]

/-! ## Smearing -/

/-- A word is odd if its low bit is set. -/
theorem mod_two_eq_one_iff (w : Word) : w % 2 = 1 ↔ w.toBitVec[0] = true := by
  rw [← UInt32.toNat_inj, UInt32.toNat_mod]
  simp [BitVec.getElem_eq_testBit_toNat]

theorem getElem_smear (w : Word) {i : Nat} (hi : i < 32) :
    (smear w).toBitVec[i] = w.toBitVec[0] := by
  change ((w.toBitVec <<< 31).sshiftRight 31)[i] = w.toBitVec[0]
  -- The low bit is moved to the top, from where it fills the word on the way back.
  rw [BitVec.getElem_sshiftRight]
  split
  · simp [show i = 0 by omega]
  · simp [BitVec.msb_eq_getLsbD_last]

theorem linear_smear : Linear smear := by
  intro v w
  apply UInt32.toBitVec_inj.1
  ext i hi
  rw [UInt32.toBitVec_xor, BitVec.getElem_xor, getElem_smear, getElem_smear, getElem_smear,
    UInt32.toBitVec_xor, BitVec.getElem_xor]

theorem smear_eq (w : Word) : smear w = if w % 2 = 1 then -1 else 0 := by
  apply UInt32.toBitVec_inj.1
  ext i hi
  rw [getElem_smear]
  by_cases h : w % 2 = 1
  · rw [if_pos h, (mod_two_eq_one_iff w).1 h]
    exact (BitVec.getElem_allOnes i hi).symm
  · rw [if_neg h, UInt32.toBitVec_zero, BitVec.getElem_zero]
    rwa [mod_two_eq_one_iff, Bool.not_eq_true] at h

/-! ## The matrix -/

/-- The matrix of the recurrence applied to a word: it moves down by one bit, and the last row is
    added if the bit shifted out was set. -/
def shiftOut (y : Word) : Word := (y >>> 1) ^^^ (if y % 2 = 1 then matrixRow else 0)

theorem shiftOut_eq (y : Word) : shiftOut y = (y >>> 1) ^^^ (smear y &&& matrixRow) := by
  rw [shiftOut, smear_eq]
  split <;> simp

theorem twist_eq (hi lo far : Word) : twist hi lo far = far ^^^ shiftOut (splice hi lo) := by
  rw [shiftOut_eq, ← UInt32.xor_assoc, twist]

theorem recur_eq (hi lo far : Word) : recur hi lo far = far ^^^ shiftOut (splice hi lo) := by
  rw [shiftOut, ← UInt32.xor_assoc, recur]

theorem twist_eq_recur (hi lo far : Word) : twist hi lo far = recur hi lo far := by
  rw [twist_eq, recur_eq]

theorem linear_shiftOut : Linear shiftOut := by
  intro v w
  rw [shiftOut_eq, shiftOut_eq, shiftOut_eq, linear_smear, UInt32.shiftRight_xor, xor_and,
    xor_xor_xor_comm]

/-- The recurrence sends sums of words to sums. -/
theorem recur_xor (hi hi' lo lo' far far' : Word) :
    recur (hi ^^^ hi') (lo ^^^ lo') (far ^^^ far') = recur hi lo far ^^^ recur hi' lo' far' := by
  rw [recur_eq, recur_eq, recur_eq, splice_xor, linear_shiftOut, xor_xor_xor_comm]

/-- The half of a word does not have the top bit of the last row. -/
theorem shiftRight_one_ne_matrixRow (w : Word) : w >>> 1 ≠ matrixRow := by
  intro h
  have hn : w.toNat >>> 1 = 0x9908b0df := congrArg UInt32.toNat h
  have hlt := w.toNat_lt
  rw [Nat.shiftRight_eq_div_pow] at hn
  omega

theorem eq_zero_of_shiftOut {y : Word} (h : shiftOut y = 0) : y = 0 := by
  rw [shiftOut, UInt32.xor_eq_zero_iff] at h
  split at h
  · exact absurd h (shiftRight_one_ne_matrixRow y)
  · -- Nothing was added: the word has no upper bits, and no low bit either.
    have hn : y.toNat >>> 1 = 0 := congrArg UInt32.toNat h
    rename_i hodd
    rw [← UInt32.toNat_inj, UInt32.toNat_mod] at hodd
    apply UInt32.toNat_inj.1
    change ¬y.toNat % 2 = 1 at hodd
    change y.toNat = 0
    omega

theorem shiftOut_injective : Function.Injective shiftOut :=
  linear_shiftOut.injective fun _ => eq_zero_of_shiftOut

theorem recur_inj {hi hi' lo lo' far : Word} :
    recur hi lo far = recur hi' lo' far ↔ hi.top = hi'.top ∧ lo.low = lo'.low := by
  rw [recur_eq, recur_eq, UInt32.xor_right_inj, shiftOut_injective.eq_iff, splice_inj]

/-! ## Bits -/

/-- Bit `i` of a word, the lowest being bit `0`. There is none from bit `32` on. -/
def bit (w : Word) (i : Nat) : Bool := w.toBitVec.getLsbD i

theorem bit_eq_getElem (w : Word) {i : Nat} (hi : i < 32) : w.bit i = w.toBitVec[i] :=
  BitVec.getLsbD_eq_getElem hi

theorem bit_xor (v w : Word) (i : Nat) : (v ^^^ w).bit i = (v.bit i ^^ w.bit i) := by
  rw [bit, UInt32.toBitVec_xor, BitVec.getLsbD_xor, bit, bit]

theorem eq_of_bit_eq {v w : Word} (h : ∀ i < 32, v.bit i = w.bit i) : v = w :=
  UInt32.toBitVec_inj.1 (BitVec.eq_of_getLsbD_eq h)

theorem bit_zero (i : Nat) : (0 : Word).bit i = false := by
  rw [bit, UInt32.toBitVec_zero, BitVec.getLsbD_zero]

theorem bit_of_le (w : Word) {i : Nat} (hi : 32 ≤ i) : w.bit i = false :=
  BitVec.getLsbD_of_ge _ i hi

theorem bit_splice_last (hi lo : Word) : (splice hi lo).bit 31 = hi.bit 31 := by
  rw [bit_eq_getElem _ (by decide), getElem_splice, if_pos rfl, bit_eq_getElem]

theorem bit_splice_of_lt (hi lo : Word) {i : Nat} (h : i < 31) :
    (splice hi lo).bit i = lo.bit i := by
  rw [bit_eq_getElem _ (by omega), getElem_splice, if_neg (Nat.ne_of_lt h), bit_eq_getElem]

/-- A bit of the image under the matrix is the next one of the word, and the last row has its part
    in it if the bit shifted out was set. -/
theorem bit_shiftOut (y : Word) {i : Nat} (hi : i < 32) :
    (shiftOut y).bit i = (y.bit (i + 1) ^^ (y.bit 0 && matrixRow.bit i)) := by
  rw [shiftOut_eq, bit_xor, bit_eq_getElem (smear y &&& matrixRow) hi, UInt32.toBitVec_and,
    BitVec.getElem_and, getElem_smear, ← bit_eq_getElem, ← bit_eq_getElem]
  have hmoved : (y >>> 1).bit i = y.bit (i + 1) := by
    rw [bit, UInt32.toBitVec_shiftRight, Nat.add_comm]
    exact BitVec.getLsbD_ushiftRight ..
  rw [hmoved]

/-! ## The matrix undone -/

/-- The word that the matrix makes into `z`. If the top bit of `z` is set, the last row was added,
    and the bit shifted out was set. -/
def shiftIn (z : Word) : Word :=
  if z.bit 31 then (z ^^^ matrixRow) <<< 1 ||| 1 else z <<< 1

theorem bit_shiftLeft_one_zero (w : Word) : (w <<< 1).bit 0 = false := by
  rw [bit, UInt32.toBitVec_shiftLeft]
  exact (BitVec.getLsbD_shiftLeft ..).trans (by simp)

theorem bit_shiftLeft_one_succ (w : Word) {i : Nat} (hi : i < 31) :
    (w <<< 1).bit (i + 1) = w.bit i := by
  rw [bit, UInt32.toBitVec_shiftLeft]
  exact (BitVec.getLsbD_shiftLeft ..).trans (by simp [bit]; omega)

theorem bit_or_one_zero (w : Word) : (w ||| 1).bit 0 = true := by
  have hone : (1 : Word).toBitVec.getLsbD 0 = true := rfl
  rw [bit, UInt32.toBitVec_or, BitVec.getLsbD_or, hone, Bool.or_true]

theorem bit_or_one_succ (w : Word) {i : Nat} (hi : i < 31) :
    (w ||| 1).bit (i + 1) = w.bit (i + 1) := by
  have hone : ∀ i < 31, (1 : Word).toBitVec.getLsbD (i + 1) = false := by decide
  rw [bit, UInt32.toBitVec_or, BitVec.getLsbD_or, hone i hi, Bool.or_false, bit]

theorem bit_shiftIn_zero (z : Word) : (shiftIn z).bit 0 = z.bit 31 := by
  rw [shiftIn]
  cases z.bit 31 with
  | false => rw [if_neg Bool.false_ne_true, bit_shiftLeft_one_zero]
  | true => rw [if_pos rfl, bit_or_one_zero]

theorem bit_shiftIn_succ (z : Word) {i : Nat} (hi : i < 31) :
    (shiftIn z).bit (i + 1) = (z.bit i ^^ (z.bit 31 && matrixRow.bit i)) := by
  rw [shiftIn]
  cases z.bit 31 with
  | false =>
    rw [if_neg Bool.false_ne_true, bit_shiftLeft_one_succ z hi, Bool.false_and, Bool.xor_false]
  | true =>
    rw [if_pos rfl, bit_or_one_succ _ hi, bit_shiftLeft_one_succ _ hi, bit_xor, Bool.true_and]

theorem shiftOut_shiftIn (z : Word) : shiftOut (shiftIn z) = z := by
  refine eq_of_bit_eq fun i hi => ?_
  rw [bit_shiftOut _ hi, bit_shiftIn_zero]
  rcases Nat.lt_or_eq_of_le (Nat.le_of_lt_succ hi) with hlt | rfl
  · rw [bit_shiftIn_succ z hlt, Bool.xor_assoc, Bool.xor_self, Bool.xor_false]
  · have hrow : matrixRow.bit 31 = true := by decide
    rw [bit_of_le _ (Nat.le_refl 32), hrow, Bool.and_true, Bool.false_xor]

theorem shiftOut_eq_iff {y z : Word} : shiftOut y = z ↔ y = shiftIn z := by
  constructor
  · intro h
    exact shiftOut_injective (h.trans (shiftOut_shiftIn z).symm)
  · rintro rfl
    exact shiftOut_shiftIn z

end Twister.Word
