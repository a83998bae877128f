import Twister.Proofs.Block.Window
import Mathlib.Data.FinEnum
import Mathlib.Data.Fintype.Pigeonhole

/-!
# Rewinding the recurrence

The recurrence can be followed backwards. A word of the sequence tells, with the one 227 places
before it, the top bit of the word 624 places before it and the low 31 bits of the next one; so
two sequences that agree on a window agree on the window before it, as long as there is one. Only
at the start something is lost: of word `0` no more than the top bit is ever used, and its low 31
bits leave no trace behind.

There are finitely many blocks, so a sequence has equal windows at two places. From there both are
rewound in step, until the first of them stands at place `1`: so the window at place `1` itself
comes back, and the sequence is periodic from there on. It is not in general periodic from place
`0` on.

* `window_eq_of_window_succ_eq`: one place back;
* `window_succ_eq_iff`, `window_eq_iff_words_agree`: two sequences agree on a window exactly if
  their blocks agree on all but the low 31 bits of the first word, and on these too if the window
  is the block;
* `regenerate_eq_iff`: so do the blocks that follow;
* `exists_window_eq`, `exists_period`: from place `1` on the sequence is periodic.
-/

namespace Twister.Block

variable {words words' : Block}

theorem head_eq_term (words : Block) : words.head = words.term 0 :=
  (term_of_lt words (Nat.zero_lt_succ 623)).symm

theorem window_eq_iff {m : Nat} :
    words.window m = words'.window m ↔ ∀ i < 624, words.term (m + i) = words'.term (m + i) := by
  constructor
  · intro h i hi
    rw [← getElem_window words m hi, ← getElem_window words' m hi, h]
  · intro h
    ext i hi
    rw [getElem_window, getElem_window, h i hi]

/-- Sequences that agree on a window agree from there on. -/
theorem term_eq_of_window_eq {m k : Nat} (h : words.window m = words'.window m) (hk : m ≤ k) :
    words.term k = words'.term k := by
  obtain ⟨k, rfl⟩ := Nat.exists_eq_add_of_le hk
  rw [← term_window, h, term_window]

/-- The word that the matrix is applied to when the word 624 places on is made. -/
def spliced (words : Block) (k : Nat) : Word :=
  Word.splice (words.term k) (words.term (k + 1))

theorem shiftOut_spliced (words : Block) (k : Nat) :
    Word.shiftOut (words.spliced k) = words.term (k + 624) ^^^ words.term (k + 397) := by
  rw [term_add, Word.recur_eq, UInt32.xor_comm, ← UInt32.xor_assoc, UInt32.xor_self,
    UInt32.zero_xor, spliced]

/-- What two later words tell of two consecutive ones. -/
theorem top_eq_and_low_eq {k : Nat} (hfar : words.term (k + 397) = words'.term (k + 397))
    (hmade : words.term (k + 624) = words'.term (k + 624)) :
    (words.term k).top = (words'.term k).top ∧
      (words.term (k + 1)).low = (words'.term (k + 1)).low := by
  rw [term_add, term_add, hfar, Word.recur_inj] at hmade
  exact hmade

/-- Two sequences that agree on a window that does not start at place `1` or before agree on the
    window before it. -/
theorem window_eq_of_window_succ_eq {m : Nat}
    (h : words.window (m + 2) = words'.window (m + 2)) :
    words.window (m + 1) = words'.window (m + 1) := by
  have hterm {k : Nat} (hk : m + 2 ≤ k) : words.term k = words'.term k := term_eq_of_window_eq h hk
  -- The word at place `m + 1` has its top bit from its own successors, and the others from those
  -- of the word before it.
  have htop := (top_eq_and_low_eq (hterm (k := m + 1 + 397) (by omega)) (hterm (by omega))).1
  have hlow := (top_eq_and_low_eq (hterm (k := m + 397) (by omega)) (hterm (by omega))).2
  refine window_eq_iff.2 fun i _ => ?_
  cases i with
  | zero => exact Word.eq_of_top_eq_of_low_eq htop hlow
  | succ i => exact hterm (by omega)

theorem window_one_eq {m : Nat} (h : words.window (m + 1) = words'.window (m + 1)) :
    words.window 1 = words'.window 1 := by
  induction m with
  | zero => exact h
  | succ m ih => exact ih (window_eq_of_window_succ_eq h)

/-- Two sequences agree from place `1` on if their blocks agree on all but the low 31 bits of the
    first word, and only then. -/
theorem window_one_eq_iff :
    words.window 1 = words'.window 1 ↔
      words.head.top = words'.head.top ∧ ∀ i (_ : i < 624), 0 < i → words[i] = words'[i] := by
  constructor
  · intro h
    refine ⟨?_, fun i hi hpos => ?_⟩
    · rw [head_eq_term, head_eq_term]
      exact (top_eq_and_low_eq (k := 0) (term_eq_of_window_eq h (by decide))
        (term_eq_of_window_eq h (by decide))).1
    · rw [← term_of_lt words hi, ← term_of_lt words' hi]
      exact term_eq_of_window_eq h hpos
  · rintro ⟨htop, hwords⟩
    refine window_eq_iff.2 fun i hi => ?_
    have hterm {k : Nat} (hlo : 0 < k) (hhi : k < 624) : words.term k = words'.term k := by
      rw [term_of_lt words hhi, term_of_lt words' hhi]
      exact hwords k hhi hlo
    by_cases hlast : i = 623
    · -- The word after the block is made of the top bit of the first word and of later words.
      rw [hlast, show 1 + 623 = 0 + 624 from rfl, term_add, term_add,
        hterm (k := 0 + 397) (by decide) (by decide), Word.recur_inj,
        hterm (k := 0 + 1) (by decide) (by decide), ← head_eq_term, ← head_eq_term]
      exact ⟨htop, rfl⟩
    · exact hterm (by omega) (by omega)

theorem window_succ_eq_iff {m : Nat} :
    words.window (m + 1) = words'.window (m + 1) ↔
      words.head.top = words'.head.top ∧ ∀ i (_ : i < 624), 0 < i → words[i] = words'[i] := by
  rw [← window_one_eq_iff]
  constructor
  · exact window_one_eq
  · intro h
    rw [Nat.add_comm, ← window_window, ← window_window, h]

/-- As long as word `0` is still to come, all of it shows in a window. -/
theorem window_eq_iff_words_agree {m : Nat} :
    words.window m = words'.window m ↔
      (words.head.top = words'.head.top ∧ ∀ i (_ : i < 624), 0 < i → words[i] = words'[i]) ∧
        (m = 0 → words.head = words'.head) := by
  cases m with
  | zero =>
    rw [window_zero, window_zero]
    constructor
    · rintro rfl
      exact ⟨⟨rfl, fun _ _ _ => rfl⟩, fun _ => rfl⟩
    · rintro ⟨⟨-, hwords⟩, hfirst⟩
      refine Vector.ext fun i hi => ?_
      cases i with
      | zero => exact hfirst rfl
      | succ i => exact hwords (i + 1) hi (Nat.succ_pos i)
  | succ m =>
    rw [window_succ_eq_iff]
    exact (and_iff_left fun h => absurd h (Nat.succ_ne_zero m)).symm

theorem regenerate_eq_iff :
    words.regenerate = words'.regenerate ↔
      words.head.top = words'.head.top ∧ ∀ i (_ : i < 624), 0 < i → words[i] = words'[i] := by
  rw [regenerate_eq_window, regenerate_eq_window]
  exact window_succ_eq_iff

/-! ## Periods -/

instance : Finite Block :=
  Finite.of_injective (fun (words : Block) (i : Fin 624) => words[i]) fun _ _ h =>
    Vector.ext fun i hi => congrFun h ⟨i, hi⟩

variable (words)

/-- Two equal windows of a sequence are rewound until the first of them stands at place `1`. -/
theorem window_one_add_eq_of_window_eq {m p : Nat}
    (h : words.window (m + 1 + p) = words.window (m + 1)) :
    words.window (1 + p) = words.window 1 := by
  rw [Nat.add_comm (m + 1) p, ← window_window] at h
  rw [Nat.add_comm 1 p, ← window_window]
  exact window_one_eq h

/-- The window at place `1` comes back. -/
theorem exists_window_eq : ∃ p, 0 < p ∧ words.window (1 + p) = words.window 1 := by
  obtain ⟨i, j, hne, heq⟩ := Finite.exists_ne_map_eq_of_infinite fun m => words.window (m + 1)
  wlog hlt : i < j generalizing i j
  · exact this j i hne.symm heq.symm (by omega)
  refine ⟨j - i, Nat.sub_pos_of_lt hlt, window_one_add_eq_of_window_eq words (m := i) ?_⟩
  rw [show i + 1 + (j - i) = j + 1 by omega]
  exact heq.symm

/-- From place `1` on, the sequence is periodic. -/
theorem exists_period : ∃ p, 0 < p ∧ ∀ k, 0 < k → words.term (k + p) = words.term k := by
  obtain ⟨p, hpos, hwindow⟩ := words.exists_window_eq
  refine ⟨p, hpos, fun k hk => ?_⟩
  obtain ⟨k, rfl⟩ : ∃ j, k = 1 + j := ⟨k - 1, by omega⟩
  calc words.term (1 + k + p) = (words.window (1 + p)).term k := by
        rw [term_window, Nat.add_right_comm]
    _ = words.term (1 + k) := by rw [hwindow, term_window]

end Twister.Block
