import Twister.Proofs.Block.Image
import Twister.Proofs.Block.Repetition
import Twister.Proofs.Engine.LongRun

/-!
# The succession of blocks

An engine goes from block to block. What comes after a block is one question, and regenerating
answers it; here are two others. The first is what can come before a block. The words of a seeded
engine always follow another block, and so can be rewound; of the blocks that an engine may be
restored with, one in `2 ^ 31` can, and then there are as many that it may follow. The second is
whether a block may come after itself. Only zeros do, and so a seeded engine never draws the words
of a whole block twice in a row, wherever the first of them stands.

* `blocks_rewound`: which blocks follow another, and which ones they follow;
* `blocks_never_repeat`: no block but that of zeros follows itself.
-/

namespace Twister

namespace Block

variable {words : Block}

theorem get_eq_term (words : Block) (i : Fin 624) : words.get i = words.term i := by
  rw [term_of_lt words i.isLt]
  rfl

/-- The words drawn from a block are not those drawn from the next one. -/
theorem exists_temper_ne (h : words ≠ zero) :
    ∃ i < 624, (words.term i).temper ≠ (words.term (624 + i)).temper := by
  by_contra hsame
  refine h (regenerate_eq_self_iff.1 ?_)
  have hwindow : words.window 0 = (words.window 624).window 0 := by
    refine window_eq_iff_temper_eq.2 fun i hi => ?_
    rw [term_window, Nat.zero_add]
    by_contra hne
    exact hsame ⟨i, hi, hne⟩
  rw [window_zero, window_zero] at hwindow
  rw [regenerate_eq_window, ← hwindow]

end Block

namespace Engine

open WordSource (IsRun)

/-- A block follows another exactly if the first word has the low 31 bits of the word that the
    last one was made of, which its last word and a far one tell. It then follows all blocks that
    agree with one of these on all but the low 31 bits of the first word. The blocks of a seeded
    engine always follow another. -/
theorem blocks_rewound :
    (∀ words : Block, ∃ y : Word,
      (∀ y', Word.shiftOut y' = words.get 623 ^^^ words.get 396 ↔ y' = y) ∧
      ((∃ earlier : Block, earlier.regenerate = words) ↔ words.head.low = y.low)) ∧
    (∀ earlier : Block,
      {other : Block | other.regenerate = earlier.regenerate} = {other |
        other.head.top = earlier.head.top ∧ ∀ i (_ : i < 624), 0 < i → other[i] = earlier[i]} ∧
      {other : Block | other.regenerate = earlier.regenerate}.ncard = 2147483648) ∧
    ∀ (wall : Reading) (mixer : Mixer) (seed : Word), ∃ engine ρ ws,
      (ofOrigin wall (.given seed)).run mixer = (engine, mixer) ∧ IsRun engine ρ ws ∧
      ∀ n, ∃ y : Word, Word.shiftOut y = (ρ n).words.get 623 ^^^ (ρ n).words.get 396 ∧
        (ρ n).words.head.low = y.low := by
  refine ⟨fun words => ⟨_, fun y' => Word.shiftOut_eq_iff, ?_⟩, fun earlier => ⟨?_, ?_⟩,
    fun wall mixer seed => ⟨ofSeed seed, _, _, rfl, isRun_ofSeed seed, fun n => ?_⟩⟩
  · rw [Block.exists_regenerate_eq_iff, Block.get_eq_term, Block.get_eq_term, Block.head_eq_term]
    rfl
  · exact Set.ext fun other => Block.regenerate_eq_iff
  · exact Block.ncard_regenerate_eq earlier
  · obtain ⟨m, hm⟩ := exists_words_afterDraws 0 n
    have hrewindable := (Block.ofSeed seed).rewindable_window (623 + m)
    refine ⟨_, Word.shiftOut_shiftIn _, ?_⟩
    rw [hm, Block.regenerate_eq_window, Block.window_window, Block.get_eq_term, Block.get_eq_term,
      Block.head_eq_term]
    rw [show 623 + m + 1 = 624 + m by omega] at hrewindable
    exact hrewindable

/-- Zeros with the lowest bit of the first word set follow no block. -/
theorem blocks_rewound_lowest_bit :
    ¬∃ earlier : Block, earlier.regenerate = Block.zero.withLow 1 := by
  obtain ⟨y, hy, hfollows⟩ := blocks_rewound.1 (Block.zero.withLow 1)
  have hzero (i : Fin 624) (hi : 0 < i.val) : (Block.zero.withLow 1).get i = 0 :=
    (Block.getElem_withLow _ _ i.isLt hi).trans (Block.getElem_zero i.isLt)
  have hhead : (Block.zero.withLow 1).head = 1 := by
    rw [Block.head_eq_term, Block.withLow_term_zero, Block.term_of_lt _ (by decide),
      Block.getElem_zero]
    rfl
  have hy0 : 0 = y := (hy 0).1 (by rw [hzero 623 (by decide), hzero 396 (by decide)]; rfl)
  rw [hfollows, ← hy0, hhead]
  decide

/-- No block but that of zeros is followed by itself, and no given seed leads to 624 draws that are
    repeated by the next 624. -/
theorem blocks_never_repeat :
    (∀ (wall : Reading) (mixer : Mixer) (seed : Word), ∃ engine ρ ws,
      (ofOrigin wall (.given seed)).run mixer = (engine, mixer) ∧ IsRun engine ρ ws ∧
      ∀ n, ∃ i < 624, ws (n + i) ≠ ws (n + 624 + i)) ∧
    ∀ words : Block, words.regenerate = words ↔ words = .zero := by
  refine ⟨fun wall mixer seed => ⟨ofSeed seed, _, _, rfl, isRun_ofSeed seed, fun n => ?_⟩,
    fun words => Block.regenerate_eq_self_iff⟩
  obtain ⟨i, hi, hne⟩ := Block.exists_temper_ne (Block.window_ofSeed_ne_zero seed (623 + n))
  rw [Block.term_window, Block.term_window] at hne
  refine ⟨i, hi, ?_⟩
  rw [show 624 + (n + i) = 623 + n + 1 + i by omega,
    show 624 + (n + 624 + i) = 623 + n + 1 + (624 + i) by omega]
  exact hne

end Engine

end Twister
