import Twister.Proofs.Block.Rewinding
import Mathlib.Data.Set.Card

/-!
# Blocks that follow another

Not every block follows another one. The last word of a block that does was made by the matrix from
a spliced word, the low half of which is that of the first word of the block; so the first and the
last word of a block fit together (`Block.Rewindable`), which leaves the low 31 bits of the first
word no freedom.

Nothing else is needed. A block that fits can be rewound by one place: the word before its first
one is spliced from what its last two words were made of (`Block.rewind`). What is rewound fits
again, and so it goes on, as far as one likes. The block so found is not the only one: the low 31
bits of its first word leave no trace, and with any others it is followed by the same block.

* `exists_window_eq_iff`, `exists_regenerate_eq_iff`: which blocks follow another, at some distance;
* `ncard_regenerate_eq`: how many blocks are followed by the same block.
-/

namespace Twister.Block

open Word (shiftIn shiftOut splice)

variable {words : Block}

/-- The first word of a block has the low 31 bits of the word that its last one was made of. -/
def Rewindable (words : Block) : Prop :=
  (words.term 0).low = (shiftIn (words.term 623 ^^^ words.term 396)).low

/-- The block one place before, up to the low 31 bits of its first word. -/
def rewind (words : Block) : Block :=
  Vector.ofFn fun i =>
    if i.val = 0 then
      splice (shiftIn (words.term 623 ^^^ words.term 396))
        (shiftIn (words.term 622 ^^^ words.term 395))
    else words.term (i.val - 1)

theorem rewind_term_zero (words : Block) :
    words.rewind.term 0 = splice (shiftIn (words.term 623 ^^^ words.term 396))
      (shiftIn (words.term 622 ^^^ words.term 395)) := by
  rw [term_of_lt _ (by decide), rewind, Vector.getElem_ofFn, if_pos rfl]

theorem rewind_term_succ (words : Block) {k : Nat} (hk : k < 623) :
    words.rewind.term (k + 1) = words.term k := by
  rw [term_of_lt _ (by omega), rewind, Vector.getElem_ofFn, if_neg (Nat.succ_ne_zero k),
    Nat.add_sub_cancel]

/-- What is rewound can be rewound again. -/
theorem rewindable_rewind (words : Block) : words.rewind.Rewindable := by
  rw [Rewindable, rewind_term_zero, Word.low_splice, rewind_term_succ _ (by decide),
    rewind_term_succ _ (by decide)]

theorem rewind_spliced_zero (h : words.Rewindable) :
    words.rewind.spliced 0 = shiftIn (words.term 623 ^^^ words.term 396) := by
  rw [spliced, rewind_term_zero, rewind_term_succ _ (by decide)]
  refine Word.eq_of_top_eq_of_low_eq ?_ ?_
  · rw [Word.top_splice, Word.top_splice]
  · rw [Word.low_splice, h]

theorem Rewindable.window_rewind (h : words.Rewindable) : words.rewind.window 1 = words := by
  refine Vector.ext fun i hi => ?_
  rw [getElem_window, ← term_of_lt words hi, Nat.add_comm]
  rcases Nat.lt_or_eq_of_le (Nat.le_of_lt_succ hi) with hlt | rfl
  · exact rewind_term_succ words hlt
  · -- The last word is made anew, of the word that it was made of.
    have hlast := words.rewind.shiftOut_spliced 0
    have hfar : words.rewind.term (0 + 397) = words.term 396 := rewind_term_succ words (by decide)
    rw [rewind_spliced_zero h, Word.shiftOut_shiftIn, hfar] at hlast
    exact ((UInt32.xor_left_inj _).1 hlast).symm

theorem rewindable_window (words : Block) (m : Nat) : (words.window (m + 1)).Rewindable := by
  have hspliced := Word.shiftOut_eq_iff.1 (words.shiftOut_spliced m)
  rw [Rewindable, term_window, term_window, term_window, Nat.add_assoc m 1 623,
    Nat.add_assoc m 1 396, ← hspliced, spliced, Word.low_splice]

/-- The blocks that can be rewound are those that are found in a sequence anywhere but at its
    start. -/
theorem exists_window_eq_iff {m : Nat} :
    (∃ earlier : Block, earlier.window (m + 1) = words) ↔ words.Rewindable := by
  constructor
  · rintro ⟨earlier, rfl⟩
    exact rewindable_window earlier m
  · intro h
    induction m generalizing words with
    | zero => exact ⟨words.rewind, h.window_rewind⟩
    | succ m ih =>
      obtain ⟨earlier, hearlier⟩ := ih (rewindable_rewind words)
      refine ⟨earlier, ?_⟩
      rw [← window_window, hearlier, h.window_rewind]

theorem exists_regenerate_eq_iff :
    (∃ earlier : Block, earlier.regenerate = words) ↔ words.Rewindable := by
  simp only [regenerate_eq_window]
  exact exists_window_eq_iff

/-! ## How many blocks are followed by the same block -/

/-- The block with the low 31 bits of its first word replaced by those of another word. -/
def withLow (words : Block) (w : Word) : Block :=
  Vector.ofFn fun i => if i.val = 0 then splice (words.term 0) w else words.term i.val

theorem withLow_term_zero (words : Block) (w : Word) :
    (words.withLow w).term 0 = splice (words.term 0) w := by
  rw [term_of_lt _ (by decide), withLow, Vector.getElem_ofFn, if_pos rfl]

theorem getElem_withLow (words : Block) (w : Word) {i : Nat} (hi : i < 624) (hpos : 0 < i) :
    (words.withLow w)[i] = words[i] := by
  rw [withLow, Vector.getElem_ofFn, if_neg (Nat.ne_of_gt hpos), term_of_lt]

theorem regenerate_withLow (words : Block) (w : Word) :
    (words.withLow w).regenerate = words.regenerate := by
  refine regenerate_eq_iff.2 ⟨?_, fun i hi hpos => getElem_withLow words w hi hpos⟩
  rw [head_eq_term, head_eq_term, withLow_term_zero, Word.top_splice]

/-- All blocks that are followed by the same block are found in this way. -/
theorem withLow_low_of_regenerate_eq {other : Block} (h : other.regenerate = words.regenerate) :
    words.withLow other.head.low = other := by
  obtain ⟨htop, hwords⟩ := regenerate_eq_iff.1 h
  rw [head_eq_term, head_eq_term] at htop
  refine Vector.ext fun i hi => ?_
  rcases Nat.eq_zero_or_pos i with rfl | hpos
  · rw [← term_of_lt, ← term_of_lt, withLow_term_zero, head_eq_term]
    refine Word.eq_of_top_eq_of_low_eq ?_ ?_
    · rw [Word.top_splice, htop]
    · rw [Word.low_splice, Word.low_low]
  · rw [getElem_withLow words _ hi hpos, hwords i hi hpos]

/-- The low 31 bits of the first word are free. -/
theorem ncard_regenerate_eq (words : Block) :
    {other : Block | other.regenerate = words.regenerate}.ncard = 2147483648 := by
  refine Set.ncard_eq_of_bijective (fun n _ => words.withLow (.ofNat n)) ?_ ?_ ?_
  · intro other hother
    refine ⟨other.head.low.toNat, ?_, ?_⟩
    · rw [Word.toNat_low]
      exact Nat.mod_lt _ (by decide)
    · rw [UInt32.ofNat_toNat, withLow_low_of_regenerate_eq hother]
  · exact fun n _ => regenerate_withLow words _
  · intro m n hm hn h
    have hlow := congrArg (fun block => (term block 0).low.toNat) h
    simp only [withLow_term_zero, Word.low_splice, Word.toNat_low, UInt32.toNat_ofNat'] at hlow
    omega

end Twister.Block
