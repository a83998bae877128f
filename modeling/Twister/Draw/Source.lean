import Twister.Word.Basic

/-!
# Sources of words

A *source* is a state from which words are drawn one after the other. All else that is drawn
from it is a view of its words: integers and doubles of a range take one word each, a long word
takes two, and a buffer of bytes one for every four bytes. Nothing is kept back: of the last
word of a buffer the bytes that do not fit are lost.

* `run_bind_of_run`, `run_map_of_run`, `run_mapM_cons`: programs with a state, run part by part;
* `toNat_scale`: scaling a word is the exact product, divided by `2 ^ 32` and rounded down;
* `fill_of_ne_nil`: a buffer is filled word by word, from the front.
-/

namespace Twister

/-!
## Faults

A *fault* is an operation asked of a value on which it is not defined: it has no answer, and
leaves no state behind. Of the public operations only the access to a word by its place in a
block can end in a fault; that the others cannot is a property of the states they are used in,
not of their types.
-/

/-- Why an operation has no answer. -/
inductive Fault
  /-- The place asked for is not one of the `length` places there are. -/
  | indexOutOfBounds (length index : Nat)
  /-- A difference is less than the least signed integer of 32 bits. -/
  | subtractOverflow
  deriving DecidableEq, Repr

/-- The fault in words. -/
def Fault.message : Fault → String
  | indexOutOfBounds length index =>
    s!"index out of bounds: the len is {length} but the index is {index}"
  | subtractOverflow => "attempt to subtract with overflow"

/-!
## Running in parts

A program that passes a state along is run part by part: once it is known what the first part
answers and which state it leaves, what remains is to run the rest in that state.
-/

section Running

variable {m : Type → Type} [Monad m] [LawfulMonad m] {σ α β : Type}
  {program : StateT σ m α} {a : α} {s s' s'' : σ}

theorem run_bind_of_run (h : program.run s = pure (a, s')) (rest : α → StateT σ m β) :
    (program >>= rest).run s = (rest a).run s' := by
  rw [StateT.run_bind, h, pure_bind]

theorem run_map_of_run (h : program.run s = pure (a, s')) (f : α → β) :
    (f <$> program).run s = pure (f a, s') := by
  rw [StateT.run_map, h, map_pure]

theorem run_mapM_cons {f : α → StateT σ m β} {l : List α} {b : β} {bs : List β}
    (h : (f a).run s = pure (b, s')) (hs : (l.mapM f).run s' = pure (bs, s'')) :
    ((a :: l).mapM f).run s = pure (b :: bs, s'') := by
  rw [List.mapM_cons, run_bind_of_run h, run_bind_of_run hs, StateT.run_pure]

end Running

/-!
## Words as numbers

A word `w` stands for the fraction `w / 2 ^ 32`. Scaling it by a number of values and rounding
down (`Word.scale`) gives one of these values, all of them about equally often. An integer of a
signed range (`Word.between`) is the lower end plus a word scaled to the width.

Read as a signed integer, scaled by about `2 ^ -32` and moved up by a half, a word gives a double
of the unit interval (`Word.toUnit`). The scale is a little below `2 ^ -32`, so that `1` is never
reached. The sum and the product are rounded separately.
-/

namespace Word

/-- The part `w / 2 ^ 32` of `values`, rounded down: the upper half of the product. -/
def scale (values w : Word) : Word :=
  ((values.toUInt64 * w.toUInt64) >>> 32).toUInt32

/-- The integer of the range from `min` to below `max` that a word gives. The width is read as an
    unsigned word, so it may exceed `2 ^ 31`; if `max` is less than `min`, the width wraps, and so
    does the result. -/
def between (min max : Int32) (w : Word) : Int32 :=
  min + (scale (max - min).toUInt32 w).toInt32

/-- The scale of `toUnit`, the double just below `2 ^ -32`. -/
def unitScale : Float := 2.328306436538696e-10

/-- The double of the unit interval that a word gives: the least one for `2 ^ 31`, which is the
    least signed integer, and a half for `0`. -/
def toUnit (w : Word) : Float :=
  Float.ofInt w.toInt32.toInt * unitScale + 0.5

/-- The double between `min` and `max` that a word gives. -/
def toInterval (min max : Float) (w : Word) : Float :=
  w.toUnit * (max - min) + min

theorem toNat_scale (values w : Word) :
    (scale values w).toNat = values.toNat * w.toNat / UInt32.size := by
  have h : values.toNat * w.toNat < UInt32.size * UInt32.size :=
    Nat.mul_lt_mul_of_lt_of_lt values.toNat_lt_size w.toNat_lt_size
  rw [scale, UInt64.toNat_toUInt32, UInt64.toNat_shiftRight, UInt64.toNat_mul,
    UInt32.toNat_toUInt64, UInt32.toNat_toUInt64]
  change (values.toNat * w.toNat % (UInt32.size * UInt32.size)) >>> 32 % UInt32.size = _
  rw [Nat.mod_eq_of_lt h, Nat.shiftRight_eq_div_pow]
  exact Nat.mod_eq_of_lt (Nat.div_lt_of_lt_mul h)

end Word

/-! ## Drawing -/

/-- Drawing from a source with states `σ`: an answer and the next state, or a fault. -/
abbrev Drawing (σ : Type) := StateT σ (Except Fault)

/-- A source of words with states `σ`. -/
class WordSource (σ : Type) where
  /-- Drawing the next word. -/
  next : Drawing σ Word

namespace WordSource

variable {σ : Type} [WordSource σ]

/-- Drawing one of the first `values` natural numbers. With no values to choose from a word is
    drawn too, and the answer is `0`. -/
def scaled (values : Word) : Drawing σ Word :=
  Word.scale values <$> next

/-- Drawing an integer from `min` to below `max`. -/
def between (min max : Int32) : Drawing σ Int32 :=
  Word.between min max <$> next

/-- Drawing a double of the unit interval. -/
def unit : Drawing σ Float :=
  Word.toUnit <$> next

/-- Drawing a double between `min` and `max`. -/
def interval (min max : Float) : Drawing σ Float :=
  Word.toInterval min max <$> next

/-- Drawing a long word, its lower half first. -/
def long : Drawing σ UInt64 := do
  let low ← next
  let high ← next
  return (high.toUInt64 <<< 32) ||| low.toUInt64

/-- Filling a buffer with the bytes of drawn words, the least significant byte of a word first.
    What the buffer held does not matter, only how long it is. -/
def fill : List UInt8 → Drawing σ (List UInt8)
  | [] => return []
  | _ :: _ :: _ :: _ :: buffer => do
    let w ← next
    let bytes ← fill buffer
    return w.bytes.toList ++ bytes
  | short => do
    let w ← next
    return w.bytes.toList.take short.length

/-- Filling a buffer, for callers prepared for a source that cannot fill it; a source of words
    always can. -/
def fill? (buffer : List UInt8) : Drawing σ (Option (List UInt8)) :=
  some <$> fill buffer

/-- A buffer that is not empty takes as much as fits of one word, and then fills what is left. -/
theorem fill_of_ne_nil {buffer : List UInt8} (h : buffer ≠ []) :
    (fill buffer : Drawing σ (List UInt8)) = (do
      let w ← next
      let bytes ← fill (buffer.drop 4)
      return w.bytes.toList.take buffer.length ++ bytes) := by
  match buffer with
  | [] => exact absurd rfl h
  | [_] | [_, _] | [_, _, _] => simp [fill]
  | _ :: _ :: _ :: _ :: buffer =>
    have hw (w : Word) : w.bytes.toList.take (buffer.length + 4) = w.bytes.toList :=
      List.take_of_length_le (by simp)
    simp [fill, hw]

end WordSource

end Twister
