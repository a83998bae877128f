/-!
# Words

The generator works on *words*: unsigned 32-bit integers, with wrapping arithmetic. A word is
also four bytes, its digits to base 256, the least significant first (`Word.bytes`). In this
order a seed is read from bytes, a byte buffer is filled from drawn words, and the hash of clock
readings takes the bytes of a word.

Two maps of words make the generator. The recurrence makes a new word of three old ones
(`Word.twist`), and a word of the state is mixed before it is handed out (`Word.temper`).

* `toList_bytes`, `map_toNat_bytes`: the bytes one by one;
* `ofBytes_bytes`: a word is read back from its bytes.
-/

namespace Twister

/-- An unsigned 32-bit integer, with wrapping arithmetic. -/
abbrev Word := UInt32

namespace Word

/-! ## Bytes -/

/-- The four bytes of a word, the least significant first. The generator leaves the order of
    bytes to a library, which is taken to write them so where it says little-endian. -/
def bytes (w : Word) : Vector UInt8 4 :=
  #v[w.toUInt8, (w >>> 8).toUInt8, (w >>> 16).toUInt8, (w >>> 24).toUInt8]

theorem toList_bytes (w : Word) : w.bytes.toList =
    [w.toUInt8, (w >>> 8).toUInt8, (w >>> 16).toUInt8, (w >>> 24).toUInt8] := rfl

/-- The bytes as numbers. -/
theorem map_toNat_bytes (w : Word) : w.bytes.toList.map UInt8.toNat =
    [w.toNat % 256, w.toNat / 256 % 256, w.toNat / 65536 % 256, w.toNat / 16777216 % 256] := by
  simp [toList_bytes, Nat.shiftRight_eq_div_pow]

/-- The word with the given bytes, the least significant first, as the library is taken to read
    them. -/
def ofBytes (bytes : Vector UInt8 4) : Word :=
  bytes.toList.foldr (fun b value => b.toUInt32 + 256 * value) 0

theorem ofBytes_bytes (w : Word) : ofBytes w.bytes = w := by
  apply UInt32.toNat_inj.1
  have hw := w.toNat_lt
  simp only [ofBytes, toList_bytes, List.foldr_cons, List.foldr_nil, UInt32.toUInt32_toUInt8,
    UInt32.mul_zero, UInt32.add_zero, UInt32.toNat_add, UInt32.toNat_mul, UInt32.toNat_mod,
    UInt32.toNat_shiftRight, UInt32.reduceToNat, Nat.shiftRight_eq_div_pow, Nat.reduceMod,
    Nat.reducePow]
  omega

/-!
## The twist

The top bit of one word is spliced to the low 31 bits of its successor, the result goes through a
matrix over the field of two elements, and a *far* word is added. Applying the matrix is a shift
to the right, and the addition of its last row, `matrixRow`, where the low bit was set. The row is
selected without branching: the low bit is smeared across a whole word, which then masks the row.
-/

/-- The last row of the matrix of the recurrence. -/
def matrixRow : Word := 0x9908b0df

/-- The top bit of `hi` followed by the low 31 bits of `lo`. -/
def splice (hi lo : Word) : Word := (hi &&& 0x80000000) ||| (lo &&& 0x7fffffff)

/-- The low bit of `w` in all places: it is moved to the top, from where an arithmetic shift
    copies it down. -/
def smear (w : Word) : Word := ((w <<< 31).toInt32 >>> 31).toUInt32

/-- The next word, given the word `hi` it replaces, the successor `lo` of that word, and the word
    `far`. -/
def twist (hi lo far : Word) : Word :=
  let y := splice hi lo
  far ^^^ (y >>> 1) ^^^ (smear y &&& matrixRow)

end Word

/-!
## Tempering

A word of the state is *tempered* before it is handed out: four xor-shifts mix its bits, so that
the bits of consecutive outputs are better distributed. Each of them can be undone, so tempering
loses nothing of the word. The two left shifts are masked; `u`, `s`, `t`, `l` are the distances
and `b`, `c` the masks.
-/

namespace Tempering

/-- The distance of the first shift, to the right. -/
def u : Word := 11

/-- The distance of the second shift, to the left under the mask `b`. -/
def s : Word := 7

/-- The distance of the third shift, to the left under the mask `c`. -/
def t : Word := 15

/-- The distance of the last shift, to the right. -/
def l : Word := 18

/-- The mask of the second shift. -/
def b : Word := 0x9d2c5680

/-- The mask of the third shift. -/
def c : Word := 0xefc60000

end Tempering

namespace Word

/-- Adding to a word its copy shifted to the right. -/
def mixRight (distance w : Word) : Word := w ^^^ (w >>> distance)

/-- Adding to a word its copy shifted to the left, under a mask. -/
def mixLeft (distance mask w : Word) : Word := w ^^^ ((w <<< distance) &&& mask)

/-- The output that a word of the state gives. -/
def temper (w : Word) : Word :=
  let w := mixRight Tempering.u w
  let w := mixLeft Tempering.s Tempering.b w
  let w := mixLeft Tempering.t Tempering.c w
  mixRight Tempering.l w

end Word

end Twister
