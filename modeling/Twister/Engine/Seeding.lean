import Twister.Engine.Basic
import Twister.Seed.Basic

/-!
# Seeding

An engine is seeded by writing the block of the seed, and regenerating it at once: none of the
words of the seeded block is ever handed out. Nothing of what the engine was before is kept.
Every way to seed comes down to `Engine.reseed`, with a seed that

* is given, as a word or as four bytes;
* is made from the reading of a clock, by a mixer;
* is drawn, as four bytes, from another source of words.

A seed that a word or a `SeedOrigin` asks the clock for is made from what the wall clock shows;
no other seeding uses a mixer that it is not given.

* `reseedByClock_run`: which seed a reading of a clock gives;
* `ofParent_eq`: which bytes a parent gives.
-/

namespace Twister

namespace Engine

/-- The engine before it is seeded. -/
def blank : Engine := { words := .zero, cursor := 0, remaining := 0 }

/-- Seeding an engine with a seed, which may be any word. -/
def reseed (seed : Word) (engine : Engine) : Engine :=
  { engine with words := .ofSeed seed }.regenerate

/-- Seeding an engine from the reading of a clock. -/
def reseedByClock (reading : Reading) (engine : Engine) : StateM Mixer Engine := do
  let seed ← Mixer.seed reading
  return engine.reseed seed

/-- Seeding an engine with a seed of the given origin. The mixer is that of the wall clock. -/
def reseedFrom (wall : Reading) (engine : Engine) : SeedOrigin → StateM Mixer Engine
  | .given seed => return engine.reseed seed
  | .clock => engine.reseedByClock wall

/-- Seeding an engine with a word, or from the wall clock if the word asks for that. -/
def reseedByWord (wall : Reading) (engine : Engine) (w : Word) : StateM Mixer Engine :=
  engine.reseedFrom wall (.ofWord w)

/-- A new engine, with a seed of the given origin. -/
def ofOrigin (wall : Reading) (origin : SeedOrigin) : StateM Mixer Engine :=
  blank.reseedFrom wall origin

/-- A new engine, seeded with a word, or from the wall clock if the word asks for that. -/
def ofWord (wall : Reading) (w : Word) : StateM Mixer Engine :=
  ofOrigin wall (.ofWord w)

/-- A new engine, seeded with a seed, which may be any word. -/
def ofSeed (seed : Word) : Engine := blank.reseed seed

/-- A new engine, seeded with the word of the given bytes, which may be any word. -/
def ofBytes (bytes : Vector UInt8 4) : Engine := ofSeed (.ofBytes bytes)

/-- A new engine, seeded with four bytes drawn from a parent. The generator leaves it to a library
    how a parent is asked. The library is taken to do what it says it does by default: it fills a
    buffer of four bytes in the way of callers prepared to get none, and seeds with the buffer. -/
def ofParent {σ : Type} [WordSource σ] : Drawing σ (Option Engine) := do
  let bytes? ← WordSource.fill? [0, 0, 0, 0]
  return bytes?.map fun bytes => ofBytes (.ofFn fun i => bytes.getD i 0)

/-- Seeding from a reading seeds with what the mixer makes of it, and counts one use. -/
theorem reseedByClock_run (engine : Engine) (reading : Reading) (mixer : Mixer) :
    (engine.reseedByClock reading).run mixer =
      (ofSeed (Mixer.value reading.seconds reading.ticks mixer.count), mixer.advance 1) := rfl

/-- A child is made of the bytes its parent draws. -/
theorem ofParent_eq {σ : Type} [WordSource σ] : (ofParent : Drawing σ (Option Engine)) =
    (fun bytes => some (.ofBytes (.ofFn fun i => bytes.getD i 0))) <$>
      WordSource.fill [0, 0, 0, 0] := by
  simp [ofParent, WordSource.fill?]

theorem words_ofSeed (seed : Word) : (ofSeed seed).words = (Block.ofSeed seed).regenerate := by
  simp only [ofSeed, reseed, regenerate]

@[simp]
theorem cursor_ofSeed (seed : Word) : (ofSeed seed).cursor = 0 := rfl

@[simp]
theorem remaining_ofSeed (seed : Word) : (ofSeed seed).remaining = 624 := rfl

end Engine

end Twister
