import Twister.Word.Basic

/-!
# Blocks

The generator keeps a *block* of 624 consecutive words of its recurrence, hands them out one by
one, and then replaces the whole block by the 624 words that follow (`Block.regenerate`).

The words are replaced in place and in order. Word `k` is made of itself, the next word and the
word 397 places on. The last word has no next one in the block and takes word `0`, and from word
`227` on there is no word 397 places on, and the one 227 places back is taken. At these places the
new words already stand, and these are the ones the recurrence asks for. No word outside the block
is ever read: the places that are read are places of the block by their types.

What replacing blocks computes is an infinite sequence of words (`Block.term`), here described word
by word, without a block that changes. It may start with any block, in particular with one that is
made of a seed (`Block.ofSeed`).

* `term_of_lt`: the sequence starts with the words of the block;
* `term_add`: every window of 625 words obeys the recurrence;
* `term_induction`: what holds of the words of the block, and is handed on by the recurrence, holds
  of all words;
* `length_row`: a row of seeded words has the length asked for.
-/

namespace Twister

/-- A run of 624 consecutive words of the recurrence. -/
abbrev Block := Vector Word 624

namespace Block

/-- The number of words of a block. -/
def size : Nat := 624

/-- The block of zeros. -/
def zero : Block := Vector.replicate 624 0

/-- The word after word `k`, which is word `0` if there is none. -/
def successor (words : Block) (k : Nat) (hk : k < 624) : Word :=
  if h : k + 1 < 624 then words[k + 1]
  else words.get ⟨0, Nat.lt_of_le_of_lt (Nat.zero_le k) hk⟩

/-- The word 397 places after word `k`, or 227 places before it if there is none. -/
def far (words : Block) (k : Nat) (hk : k < 624) : Word :=
  if h : k + 397 < 624 then words[k + 397]
  else words.get ⟨k - 227, Nat.lt_of_le_of_lt (Nat.sub_le k 227) hk⟩

/-- Replacing word `k` by its successor in the recurrence. -/
def advance (words : Block) (k : Nat) (h : k < 624) : Block :=
  words.set k (Word.twist words[k] (words.successor k h) (words.far k h))

/-- The block that follows: its words are replaced one after the other, from the first. -/
def regenerate (words : Block) : Block :=
  Nat.fold 624 (fun k h words => words.advance k h) words

@[simp]
theorem getElem_zero {i : Nat} (hi : i < 624) : zero[i] = 0 :=
  Vector.getElem_replicate hi

end Block

/-!
## The recurrence

The first 624 words of the sequence are those of the block, and each later one is made of three
that stand 624, 623 and 227 places before it (`Word.recur`), with the matrix applied by cases.
-/

/-- The next word of the recurrence. The words `hi` and `lo` give a spliced word, whose upper 31
    bits are moved down; the last row of the matrix is added if the bit shifted out was set. -/
def Word.recur (hi lo far : Word) : Word :=
  let y := splice hi lo
  far ^^^ (y >>> 1) ^^^ (if y % 2 = 1 then matrixRow else 0)

namespace Block

variable (words : Block)

/-- Word `k` of the sequence that starts with the words of the block. -/
def term (k : Nat) : Word :=
  if h : k < 624 then words[k]
  else Word.recur (term (k - 624)) (term (k - 623)) (term (k - 227))
  termination_by k

theorem term_of_lt {k : Nat} (h : k < 624) : words.term k = words[k] := by
  rw [term, dif_pos h]

theorem term_add (k : Nat) :
    words.term (k + 624) =
      Word.recur (words.term k) (words.term (k + 1)) (words.term (k + 397)) := by
  rw [term, dif_neg (by omega), show k + 624 - 624 = k by omega,
    show k + 624 - 623 = k + 1 by omega, show k + 624 - 227 = k + 397 by omega]

/-- Induction along the recurrence. -/
@[elab_as_elim]
theorem term_induction {P : Nat → Prop} (first : ∀ k, k < 624 → P k)
    (later : ∀ k, P k → P (k + 1) → P (k + 397) → P (k + 624)) (k : Nat) : P k := by
  induction k using Nat.strongRecOn with
  | ind k ih =>
    by_cases hk : k < 624
    · exact first k hk
    · obtain ⟨k, rfl⟩ := Nat.exists_eq_add_of_le' (Nat.not_lt.1 hk)
      exact later k (ih k (by omega)) (ih (k + 1) (by omega)) (ih (k + 397) (by omega))

end Block

/-!
## Seeded blocks

A seed fills a block through a linear congruential generator, `z ↦ 69069 * z + 1`, started at
the seed with its low bit set. Two steps are taken per word: a word has the upper half of `z`
above the upper half of `69069 * z`, which is the next value before its increment. The low bit
of the seed is thereby the one part of it that is lost.
-/

namespace Seeded

/-- The multiplier of the linear congruential generator. -/
def multiplier : Word := 69069

/-- One step of the linear congruential generator. -/
def lcg (z : Word) : Word := multiplier * z + 1

/-- The word made at the value `z` of the generator. -/
def word (z : Word) : Word := ((multiplier * z) >>> 16) ||| (z &&& 0xffff0000)

/-- A row of `n` words, made at `z` and then at every second value that follows. -/
def row : Nat → Word → List Word
  | 0, _ => []
  | n + 1, z => word z :: row n (lcg (lcg z))

@[simp]
theorem length_row (n : Nat) (z : Word) : (row n z).length = n := by
  induction n generalizing z with
  | zero => rfl
  | succ n ih => simp [row, ih]

end Seeded

/-- The block a seed stands for, before it is regenerated for the first time. -/
def Block.ofSeed (seed : Word) : Block :=
  ⟨(Seeded.row 624 (seed ||| 1)).toArray, by simp⟩

end Twister
