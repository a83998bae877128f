import Twister.Proofs.Block.Rewinding
import Twister.Proofs.Engine.Stream

/-!
# Engines side by side

An engine shows no more than the words drawn from it. As many draws as a block has words give a
window of its sequence, and with it all that comes later. What came before is found by rewinding,
up to the low 31 bits of word `0`: once this word has been handed out they are ignored, the only
part of the state that ever is.

Tempering is linear like the recurrence, and the place of an engine in its sequence does not depend
on its words. So an engine restored with the sum of two blocks keeps step with the engines
restored with these: at all times its words are the sums of theirs, and so are the words it
draws.

* `window_eq_iff_temper_eq`: 624 consecutive draws show a window of the sequence;
* `streams_agree_iff`: which engines cannot be told apart by any number of draws;
* `streams_xor`: the engines of two blocks and of their sum, and the engine of zeros.
-/

namespace Twister

namespace Block

variable {words words' : Block}

/-- As tempering loses nothing, 624 consecutive draws show a window of the sequence. -/
theorem window_eq_iff_temper_eq {m : Nat} :
    words.window m = words'.window m ↔
      ∀ n < 624, (words.term (m + n)).temper = (words'.term (m + n)).temper := by
  simp only [window_eq_iff, Word.temper_injective.eq_iff]

/-- What 624 consecutive draws do not tell apart, no later draw does. -/
theorem window_eq_iff_forall_temper_eq {m : Nat} :
    words.window m = words'.window m ↔
      ∀ n, (words.term (m + n)).temper = (words'.term (m + n)).temper := by
  constructor
  · intro h n
    rw [term_eq_of_window_eq h (Nat.le_add_right m n)]
  · intro h
    exact window_eq_iff_temper_eq.2 fun n _ => h n

end Block

namespace Engine

open WordSource (IsRun)

/-- Engines restored with one cursor draw the same words for ever if they do so for the length of a
    block. This is the case exactly if their blocks agree, except for the low 31 bits of word `0`
    if it has been handed out, which regenerating a block forgets. -/
theorem streams_agree_iff (words words' : Block) {cursor : Nat} (h : cursor ≤ 624) :
    ∃ engine engine' ρ ρ' ws ws',
      Snapshot.restore? ⟨words.toList, cursor⟩ = .ok engine ∧
      Snapshot.restore? ⟨words'.toList, cursor⟩ = .ok engine' ∧
      IsRun engine ρ ws ∧ IsRun engine' ρ' ws' ∧
      ((∀ n < 624, ws n = ws' n) ↔ ∀ n, ws n = ws' n) ∧
      ((∀ n, ws n = ws' n) ↔
        (words.head.top = words'.head.top ∧ ∀ i (_ : i < 624), 0 < i → words[i] = words'[i]) ∧
          (cursor = 0 → words.head = words'.head)) ∧
      (words.regenerate = words'.regenerate ↔
        words.head.top = words'.head.top ∧ ∀ i (_ : i < 624), 0 < i → words[i] = words'[i]) := by
  refine ⟨_, _, _, _, _, _, restore?_eq_ofBlock words h, restore?_eq_ofBlock words' h,
    isRun_ofBlock words h, isRun_ofBlock words' h, ?_, ?_, Block.regenerate_eq_iff⟩
  · rw [← Block.window_eq_iff_temper_eq, ← Block.window_eq_iff_forall_temper_eq]
  · rw [← Block.window_eq_iff_forall_temper_eq, Block.window_eq_iff_words_agree]

/-- The lowest bit of word `0` shows in the next draw, or else never. -/
theorem streams_agree_iff_low_bit :
    (0 ≤ 624 ∧ ∃ engine engine' ρ ρ' ws ws',
      Snapshot.restore? ⟨Block.zero.toList, 0⟩ = .ok engine ∧
      Snapshot.restore? ⟨(Block.zero.set 0 1).toList, 0⟩ = .ok engine' ∧
      IsRun engine ρ ws ∧ IsRun engine' ρ' ws' ∧ ¬∀ n < 624, ws n = ws' n) ∧
    1 ≤ 624 ∧ ∃ engine engine' ρ ρ' ws ws',
      Snapshot.restore? ⟨Block.zero.toList, 1⟩ = .ok engine ∧
      Snapshot.restore? ⟨(Block.zero.set 0 1).toList, 1⟩ = .ok engine' ∧
      IsRun engine ρ ws ∧ IsRun engine' ρ' ws' ∧ ∀ n, ws n = ws' n := by
  have hzero : Block.zero.head = 0 := Block.getElem_zero (Nat.zero_lt_succ 623)
  have hone : (Block.zero.set 0 1).head = 1 := Vector.getElem_set_self (Nat.zero_lt_succ 623)
  refine ⟨⟨by decide, ?_⟩, by decide, ?_⟩
  · obtain ⟨engine, engine', ρ, ρ', ws, ws', he, he', hρ, hρ', hblock, hwords, -⟩ :=
      streams_agree_iff .zero (Block.zero.set 0 1) (Nat.zero_le 624)
    refine ⟨engine, engine', ρ, ρ', ws, ws', he, he', hρ, hρ', fun hsame => ?_⟩
    have hfirst := (hwords.1 (hblock.1 hsame)).2 rfl
    rw [hzero, hone] at hfirst
    exact absurd hfirst (by decide)
  · have hle : 1 ≤ 624 := by decide
    obtain ⟨engine, engine', ρ, ρ', ws, ws', he, he', hρ, hρ', -, hwords, -⟩ :=
      streams_agree_iff .zero (Block.zero.set 0 1) hle
    refine ⟨engine, engine', ρ, ρ', ws, ws', he, he', hρ, hρ', hwords.2 ⟨⟨?_, ?_⟩, ?_⟩⟩
    · rw [hzero, hone]
      decide
    · intro i hi hpos
      exact (Vector.getElem_set_ne _ _ (Nat.ne_of_lt hpos)).symm
    · exact fun h => absurd h Nat.one_ne_zero

/-! ## Sums of engines -/

/-- Of three engines restored with one cursor, the third with the sum of the blocks of the other
    two, the third always holds and draws the sums of what the others do. An engine restored with
    zeros draws nothing else. -/
theorem streams_xor (words words' : Block) {cursor : Nat} (h : cursor ≤ 624) :
    (∃ engine engine' sum ρ ρ' ρ'' ws ws' ws'',
      Snapshot.restore? ⟨words.toList, cursor⟩ = .ok engine ∧
      Snapshot.restore? ⟨words'.toList, cursor⟩ = .ok engine' ∧
      Snapshot.restore? ⟨(words ^^^ words').toList, cursor⟩ = .ok sum ∧
      IsRun engine ρ ws ∧ IsRun engine' ρ' ws' ∧ IsRun sum ρ'' ws'' ∧
      ∀ n, (ρ'' n).words = (ρ n).words ^^^ (ρ' n).words ∧
        (ρ'' n).cursor = (ρ n).cursor ∧ (ρ'' n).cursor = (ρ' n).cursor ∧
        ws'' n = ws n ^^^ ws' n) ∧
    ∃ engine ρ ws, Snapshot.restore? ⟨Block.zero.toList, cursor⟩ = .ok engine ∧
      IsRun engine ρ ws ∧ ∀ n, ws n = 0 := by
  constructor
  · refine ⟨_, _, _, _, _, _, _, _, _, restore?_eq_ofBlock words h, restore?_eq_ofBlock words' h,
      restore?_eq_ofBlock _ h, isRun_ofBlock words h, isRun_ofBlock words' h, isRun_ofBlock _ h,
      fun n => ⟨?_, cursor_afterDraws_eq .., cursor_afterDraws_eq .., ?_⟩⟩
    · obtain ⟨m, hm⟩ := exists_words_afterDraws cursor n
      rw [hm, hm, hm, Block.window_xor]
    · rw [Block.term_xor, Word.linear_temper]
  · refine ⟨_, _, _, restore?_eq_ofBlock .zero h, isRun_ofBlock .zero h, fun n => ?_⟩
    rw [Block.zero_term, Word.linear_temper.map_zero]

/-- The blocks are used up, and the sum is kept by regenerating them. -/
theorem streams_xor_used_up :
    624 ≤ 624 ∧ ∃ engine engine' sum ρ ρ' ρ'' ws ws' ws'',
      Snapshot.restore? ⟨(Vector.replicate 624 1 : Block).toList, 624⟩ = .ok engine ∧
      Snapshot.restore? ⟨(Vector.replicate 624 2 : Block).toList, 624⟩ = .ok engine' ∧
      Snapshot.restore? ⟨((.replicate 624 1 : Block) ^^^ .replicate 624 2).toList, 624⟩ =
        .ok sum ∧
      IsRun engine ρ ws ∧ IsRun engine' ρ' ws' ∧ IsRun sum ρ'' ws'' ∧
      (ρ'' 1).words = (ρ 1).words ^^^ (ρ' 1).words ∧ ws'' 0 = ws 0 ^^^ ws' 0 := by
  obtain ⟨engine, engine', sum, ρ, ρ', ρ'', ws, ws', ws'', he, he', hsum, hρ, hρ', hρ'', h⟩ :=
    (streams_xor (.replicate 624 1) (.replicate 624 2) (Nat.le_refl 624)).1
  exact ⟨Nat.le_refl 624, engine, engine', sum, ρ, ρ', ρ'', ws, ws', ws'', he, he', hsum, hρ, hρ',
    hρ'', (h 1).1, (h 0).2.2.2⟩

end Engine

end Twister
