import Twister.Proofs.Word.Twist
import Mathlib.Logic.Function.Iterate

/-!
# Windows of the recurrence

A block is a *window* of the sequence it starts (`Block.window`): 624 consecutive words, from
any place on. As each word of the sequence is made of words that stand less than 625 places
before it, a window starts the rest of the sequence, and windows can be taken one after the
other (`term_window`, `window_window`).

Regenerating a block moves its window by 624 places. It is done in place, and meanwhile the block
holds new words before old ones; but read around, from the word to be replaced next on, it is a
window all the time (`Block.IsAround`), which each replacement moves by one place. This is why the
words read at the start of the block, or 227 places back, are the ones the recurrence asks for: they
are new already.

Blocks are added word by word, by exclusive or. The recurrence is linear for this addition: what
it takes of three words, and the matrix it applies, send sums to sums. So the sequence of a sum of
blocks is the sum of their sequences, and regenerating a block, with all its replacements in
place, is linear as well.

* `IsAround.successor_eq`, `IsAround.far_eq`: which words are read when one is replaced;
* `IsAround.advance`: replacing a word moves the window by one place;
* `regenerate_eq_window`: regenerating a block moves its window by 624 places;
* `iterate_regenerate`: doing so several times;
* `term_xor`, `window_xor`: the sequence of a sum and its windows;
* `zero_term`: the block of zeros starts a sequence of zeros.
-/

namespace Twister.Block

variable (words : Block)

/-- The 624 words of the sequence from place `m` on. -/
def window (m : Nat) : Block := Vector.ofFn fun i => words.term (m + i)

@[simp]
theorem getElem_window (m : Nat) {i : Nat} (hi : i < 624) :
    (words.window m)[i] = words.term (m + i) := by
  simp [window]

/-- A window starts the rest of the sequence. -/
theorem term_window (m k : Nat) : (words.window m).term k = words.term (m + k) := by
  induction k using term_induction with
  | first k hk => rw [term_of_lt _ hk, getElem_window]
  | later k h₀ h₁ h₃₉₇ =>
    rw [term_add, h₀, h₁, h₃₉₇, ← Nat.add_assoc, ← Nat.add_assoc, ← Nat.add_assoc, term_add]

@[simp]
theorem window_zero : words.window 0 = words := by
  ext i hi
  rw [getElem_window, Nat.zero_add, term_of_lt _ hi]

theorem window_window (m n : Nat) : (words.window m).window n = words.window (m + n) := by
  ext i hi
  rw [getElem_window, getElem_window, term_window, Nat.add_assoc]

/-! ## Regenerating a block -/

/-- Read around from word `k` on, the block is the window from place `k` of the sequence that
    starts with `words`. -/
def IsAround (block : Block) (k : Nat) : Prop :=
  ∀ j, j < 624 → block[(k + j) % 624] = words.term (k + j)

variable {words}

theorem isAround_zero : words.IsAround words 0 := by
  intro j hj
  simp only [Nat.zero_add, Nat.mod_eq_of_lt hj]
  exact (term_of_lt words hj).symm

/-- The word read as the next one is the next one of the window, also after the last word, where it
    is word `0` of the block. -/
theorem IsAround.successor_eq {block : Block} {k : Nat} (h : words.IsAround block k)
    (hk : k < 624) : block.successor k hk = words.term (k + 1) := by
  rw [← h 1 (by decide), successor]
  split
  · have hplace : (k + 1) % 624 = k + 1 := by omega
    simp only [hplace]
  · have hplace : (k + 1) % 624 = 0 := by omega
    simp only [hplace]
    rfl

/-- The far word is the one 397 places on in the window, also where it stands 227 places back in
    the block. -/
theorem IsAround.far_eq {block : Block} {k : Nat} (h : words.IsAround block k) (hk : k < 624) :
    block.far k hk = words.term (k + 397) := by
  rw [← h 397 (by decide), far]
  split
  · have hplace : (k + 397) % 624 = k + 397 := by omega
    simp only [hplace]
  · have hplace : (k + 397) % 624 = k - 227 := by omega
    simp only [hplace]
    rfl

/-- The word that replaces word `k` is the one that follows the window. -/
theorem IsAround.advance_eq_set {block : Block} {k : Nat} (h : words.IsAround block k)
    (hk : k < 624) : block.advance k hk = block.set k (words.term (k + 624)) := by
  have hfirst := h 0 (by decide)
  simp only [Nat.add_zero, Nat.mod_eq_of_lt hk] at hfirst
  rw [Block.advance, Word.twist_eq_recur, hfirst, h.successor_eq hk, h.far_eq hk, term_add]

theorem IsAround.advance {block : Block} {k : Nat} (h : words.IsAround block k) (hk : k < 624) :
    words.IsAround (block.advance k hk) (k + 1) := by
  intro j hj
  simp only [h.advance_eq_set hk]
  by_cases hlast : j = 623
  · -- The last word of the new window stands where the first of the old one stood.
    rw [Vector.getElem_set, if_pos (by omega)]
    exact congrArg words.term (by omega)
  · rw [Vector.getElem_set_ne _ _ (by omega)]
    have hplace : k + 1 + j = k + (j + 1) := by omega
    simp only [hplace]
    exact h (j + 1) (by omega)

theorem IsAround.eq_window {block : Block} (h : words.IsAround block 624) :
    block = words.window 624 := by
  ext i hi
  have hi' := h i hi
  simp only [Nat.add_mod_left, Nat.mod_eq_of_lt hi] at hi'
  rw [hi', getElem_window]

variable (words)

theorem regenerate_eq_window : words.regenerate = words.window 624 := by
  -- The invariant of the sweep, after its first `k` replacements.
  have hsweep : ∀ k (hk : k ≤ 624), words.IsAround
      (Nat.fold k (fun i hi block => block.advance i (Nat.lt_of_lt_of_le hi hk)) words) k := by
    intro k hk
    induction k with
    | zero => exact isAround_zero
    | succ k ih =>
      rw [Nat.fold_succ]
      exact (ih (Nat.le_of_succ_le hk)).advance hk
  exact (hsweep 624 (Nat.le_refl _)).eq_window

theorem getElem_regenerate {i : Nat} (hi : i < 624) :
    words.regenerate[i] = words.term (624 + i) := by
  simp only [regenerate_eq_window, getElem_window]

/-- Regenerating a block `q` times moves its window by `624 * q` places. -/
theorem iterate_regenerate (q : Nat) : regenerate^[q] words = words.window (624 * q) := by
  induction q with
  | zero => simp
  | succ q ih =>
    rw [Function.iterate_succ_apply', ih, regenerate_eq_window, window_window, Nat.mul_succ]

/-! ## Sums of blocks -/

/-- The sum of two blocks, word by word. -/
instance : XorOp Block := ⟨Vector.zipWith (· ^^^ ·)⟩

variable (words words' : Block)

@[simp]
theorem getElem_xor {i : Nat} (hi : i < 624) : (words ^^^ words')[i] = words[i] ^^^ words'[i] :=
  Vector.getElem_zipWith hi

@[simp]
theorem xor_self : words ^^^ words = zero := by
  refine Vector.ext fun i hi => ?_
  rw [getElem_xor, UInt32.xor_self, getElem_zero]

theorem xor_comm : words ^^^ words' = words' ^^^ words := by
  refine Vector.ext fun i hi => ?_
  rw [getElem_xor, getElem_xor, UInt32.xor_comm]

variable {words words'} in
/-- Only equal blocks add up to zero. -/
theorem xor_eq_zero_iff : words ^^^ words' = zero ↔ words = words' := by
  constructor
  · intro h
    refine Vector.ext fun i hi => UInt32.xor_eq_zero_iff.1 ?_
    rw [← getElem_xor, h, getElem_zero]
  · rintro rfl
    exact xor_self words

theorem term_xor (k : Nat) : (words ^^^ words').term k = words.term k ^^^ words'.term k := by
  induction k using term_induction with
  | first k hk => rw [term_of_lt _ hk, term_of_lt _ hk, term_of_lt _ hk, getElem_xor]
  | later k h₀ h₁ h₃₉₇ => rw [term_add, term_add, term_add, h₀, h₁, h₃₉₇, Word.recur_xor]

theorem window_xor (m : Nat) :
    (words ^^^ words').window m = words.window m ^^^ words'.window m := by
  refine Vector.ext fun i hi => ?_
  rw [getElem_window, getElem_xor, getElem_window, getElem_window, term_xor]

/-- Zeros are followed by zeros: they are the sum of any block and itself. -/
theorem zero_term (k : Nat) : zero.term k = 0 := by
  rw [← xor_self zero, term_xor, UInt32.xor_self]

end Twister.Block
