import Twister.Description

/-!
# Seeds

A clock shows two words that move over time, its *reading*. A *mixer* makes a seed of them: each
word is reduced to the value of its bytes as digits to base 257, and the two values are
combined. A coarse clock may show the same reading twice in a row; so the mixer counts its uses,
and adds the count to the first value. The count wraps like every word.

The seed of a generator is given, or made from what a clock shows (`SeedOrigin`). Where only a word
can be passed, one word is set aside to ask for the clock (`SeedOrigin.clockWord`); given as a
seed, this word is one like all others.

* `mix_run`, `seed_run`: what a mixer answers, and that it counts one use;
* `advance_advance`: more uses after the first of them;
* `ofWord_eq_clock_iff`: only the word set aside asks for the clock.
-/

namespace Twister

/-! ## Clocks and mixers -/

/-- What a clock shows: two words that move over time. -/
structure Reading where
  /-- The seconds. -/
  seconds : Word
  /-- The ticks, which move faster. -/
  ticks : Word
  deriving DecidableEq, Repr

/-- The wall clock described; it has no parts. -/
def Reading.wallDescription : Description := .atom "SystemClock"

/-- The value of the bytes of a word, the least significant first, as digits to base 257, the
    first of which counts most. -/
def Word.base257 (w : Word) : Word :=
  w.bytes.toList.foldl (fun value b => value * 257 + b.toUInt32) 0

/-- A mixer of pairs of words, which counts its uses. A new one has not been used. -/
structure Mixer where
  /-- The number of uses so far, modulo `2 ^ 32`. -/
  count : Word := 0
  deriving DecidableEq, Repr, Inhabited

namespace Mixer

/-- What the words `a` and `b` are mixed to after `count` uses. -/
def value (a b count : Word) : Word := b.base257 ^^^ (a.base257 + count)

/-- Using a mixer: it mixes the words `a` and `b`, and counts the use. -/
def mix (a b : Word) : StateM Mixer Word :=
  modifyGet fun mixer => (value a b mixer.count, { count := mixer.count + 1 })

/-- Making a seed from the reading of a clock. -/
def seed (reading : Reading) : StateM Mixer Word :=
  mix reading.seconds reading.ticks

/-- A mixer after `n` more uses. What was mixed does not matter. -/
def advance (n : Nat) (mixer : Mixer) : Mixer :=
  { count := mixer.count + UInt32.ofNat n }

/-- The mixer described, with the number of its uses. -/
def description (mixer : Mixer) : Description :=
  .record "SeedHasher" [("counter", .number mixer.count.toNat)]

theorem mix_run (a b : Word) (mixer : Mixer) :
    (mix a b).run mixer = (value a b mixer.count, mixer.advance 1) := rfl

theorem seed_run (reading : Reading) (mixer : Mixer) :
    (seed reading).run mixer =
      (value reading.seconds reading.ticks mixer.count, mixer.advance 1) := rfl

@[simp]
theorem count_advance (n : Nat) (mixer : Mixer) :
    (mixer.advance n).count = mixer.count + UInt32.ofNat n := rfl

@[simp]
theorem advance_zero (mixer : Mixer) : mixer.advance 0 = mixer := by
  simp [advance]

theorem advance_advance (m n : Nat) (mixer : Mixer) :
    (mixer.advance m).advance n = mixer.advance (m + n) := by
  simp [advance, UInt32.ofNat_add, UInt32.add_assoc]

end Mixer

/-! ## Origins of seeds -/

/-- Where the seed of a generator comes from. -/
inductive SeedOrigin
  /-- The seed is given. -/
  | given (seed : Word)
  /-- The seed is made from what the wall clock shows. -/
  | clock
  deriving DecidableEq, Repr

namespace SeedOrigin

/-- The word that asks for a seed from the clock. -/
def clockWord : Word := 0xffffffff

/-- The origin that a word asks for. -/
def ofWord (w : Word) : SeedOrigin :=
  if w = clockWord then clock else given w

/-- The origin described: a given seed with its value. -/
def description : SeedOrigin → Description
  | given seed => .tuple "Explicit" (.number seed.toNat)
  | clock => .atom "Auto"

theorem ofWord_eq_clock_iff {w : Word} : ofWord w = clock ↔ w = clockWord := by
  simp [ofWord]

theorem ofWord_of_ne {w : Word} (h : w ≠ clockWord) : ofWord w = given w := by
  simp [ofWord, h]

end SeedOrigin

end Twister
