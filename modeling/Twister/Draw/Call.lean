import Twister.Draw.Source

/-!
# Calls

Draws of all kinds as data: a `Call` names one draw with its arguments, and an `Answer` holds
what it answers. A call can be performed on every source (`Call.perform`), so one list of calls
compares the sources it is run on. The plainest source is a *script*, which replays a fixed list of
words: with it a draw is seen to depend on the words it takes, and on nothing else.

* `Script.next_run_singleton`: a script of one word answers this word.
-/

namespace Twister

/-- A draw, with its arguments. -/
inductive Call
  /-- The next word. -/
  | word
  /-- A natural number below `values`. -/
  | scaled (values : Word)
  /-- An integer from `min` to below `max`. -/
  | between (min max : Int32)
  /-- A double of the unit interval. -/
  | unit
  /-- A double between `min` and `max`. -/
  | interval (min max : Float)
  /-- A long word. -/
  | long
  /-- Bytes to fill a buffer. -/
  | bytes (buffer : List UInt8)
  /-- Bytes to fill a buffer, for callers prepared to get none. -/
  | bytes? (buffer : List UInt8)

/-- What a draw answers. -/
inductive Answer
  | word (w : Word)
  | integer (i : Int32)
  | double (x : Float)
  | long (w : UInt64)
  | bytes (bs : List UInt8)
  | bytes? (bs : Option (List UInt8))

/-- Performing a call on a source. -/
def Call.perform {σ : Type} [WordSource σ] : Call → Drawing σ Answer
  | word => .word <$> WordSource.next
  | scaled values => .word <$> WordSource.scaled values
  | between min max => .integer <$> WordSource.between min max
  | unit => .double <$> WordSource.unit
  | interval min max => .double <$> WordSource.interval min max
  | long => .long <$> WordSource.long
  | bytes buffer => .bytes <$> WordSource.fill buffer
  | bytes? buffer => .bytes? <$> WordSource.fill? buffer

/-! ## Scripts -/

/-- A list of words to be replayed for ever, and the number of words drawn from it so far. -/
structure Script where
  /-- The words. -/
  words : List Word
  /-- The number of words drawn so far. -/
  drawn : Nat := 0
  /-- There is a word to start with, and to go on with after the last one. -/
  words_ne_nil : words ≠ []

namespace Script

/-- Word `k` of the script, counted around its list. -/
def word (script : Script) (k : Nat) : Word :=
  have : k % script.words.length < script.words.length :=
    Nat.mod_lt k (List.length_pos_iff.2 script.words_ne_nil)
  script.words[k % script.words.length]

/-- Drawing the next word of a script. -/
def next : Drawing Script Word :=
  modifyGet fun script => (script.word script.drawn, { script with drawn := script.drawn + 1 })

instance : WordSource Script := ⟨next⟩

theorem next_run_singleton (w : Word) :
    next.run { words := [w], words_ne_nil := List.cons_ne_nil w [] } =
      .ok (w, { words := [w], drawn := 1, words_ne_nil := List.cons_ne_nil w [] }) := rfl

end Script

end Twister
