import Twister.Block.Basic
import Twister.Description
import Twister.Draw.Source

/-!
# Engines

An *engine* is a block together with a *cursor*, the place of the word to be handed out next,
and the number of words that remain to be handed out before a new block is needed. The two say
the same, `remaining` being 624 less the cursor in every engine that is built and used through
its public operations; it is `remaining` that decides on a new block, and the cursor that picks
the word.

Blocks are regenerated lazily: an engine whose words are used up, with its cursor at 624, keeps
the old block until the next draw. A draw counts down the words that remain, regenerates the
block if there were none, and hands out the tempered word at the cursor.

An engine is *in step* if its cursor is at most 624 and the words that remain are those from the
cursor on. The cursor of such an engine picks a word of the block whenever a word remains, so
that a draw has no fault:

* `next_run_of_lt`: before the end of the block, a draw hands out the word at the cursor;
* `next_run_of_eq`: at the end of the block, it is a draw from the engine with its block
  regenerated;
* `InStep.next`: in either case it has an answer, and the engine stays in step.
-/

namespace Twister

/-- The state of the generator. -/
structure Engine where
  /-- The current block. -/
  words : Block
  /-- The place of the next word, 624 if all have been handed out. -/
  cursor : Nat
  /-- The number of words still to be handed out. -/
  remaining : Int32
  deriving DecidableEq, Repr

namespace Engine

/-- The words of an engine replaced by the block that follows, none of which is handed out yet. -/
def regenerate (engine : Engine) : Engine :=
  { words := engine.words.regenerate, cursor := 0, remaining := 624 }

/-- Counting one word of those that remain. -/
def countDown (engine : Engine) : Except Fault Engine :=
  if engine.remaining = Int32.minValue then .error .subtractOverflow
  else .ok { engine with remaining := engine.remaining - 1 }

/-- Counting the word to be drawn, in a new block if none remains in the current one. -/
def prepare (engine : Engine) : Except Fault Engine := do
  let engine ← engine.countDown
  if engine.remaining < 0 then engine.regenerate.countDown else return engine

/-- Taking the word at the cursor. -/
def take (engine : Engine) : Except Fault (Word × Engine) :=
  match engine.words[engine.cursor]? with
  | some w => .ok (w, { engine with cursor := engine.cursor + 1 })
  | none => .error (.indexOutOfBounds Block.size engine.cursor)

/-- Drawing the next word. -/
def next : Drawing Engine Word := fun engine => do
  let engine ← engine.prepare
  let (w, engine) ← engine.take
  return (w.temper, engine)

instance : WordSource Engine := ⟨next⟩

/-- Word `i` of the current block, whether it has been handed out or not. -/
def word (engine : Engine) (i : Nat) : Except Fault Word :=
  match engine.words[i]? with
  | some w => .ok w
  | none => .error (.indexOutOfBounds Block.size i)

/-- The engine described, with the first four words of its block. -/
def description (engine : Engine) : Description :=
  .record "RandomSuper" [
    ("cursor", .number engine.cursor),
    ("remaining", .number engine.remaining.toInt),
    ("head", .numbers ((engine.words.toList.take 4).map fun w => w.toNat))]

/-! ## Engines in step -/

/-- The cursor and the words that remain say the same. -/
structure InStep (engine : Engine) : Prop where
  cursor_le : engine.cursor ≤ 624
  remaining_eq : engine.remaining = .ofNat (624 - engine.cursor)

theorem inStep_regenerate (engine : Engine) : engine.regenerate.InStep :=
  ⟨Nat.zero_le _, rfl⟩

/-- Counting down has no fault if a number of words remains, or none. -/
theorem countDown_eq {engine : Engine} {n : Nat} (hn : n ≤ 624)
    (h : engine.remaining = .ofNat n) :
    engine.countDown = .ok { engine with remaining := .ofNat n - 1 } := by
  have hi : (Int32.ofNat n).toInt = n := Int32.toInt_ofNat_of_lt (by omega)
  rw [countDown, if_neg, h]
  intro hmin
  rw [h] at hmin
  rw [hmin, show Int32.minValue.toInt = -2147483648 from rfl] at hi
  omega

theorem prepare_of_lt {engine : Engine} (h : engine.cursor < 624)
    (hr : engine.remaining = .ofNat (624 - engine.cursor)) :
    engine.prepare = .ok { engine with remaining := .ofNat (624 - (engine.cursor + 1)) } := by
  have hd := countDown_eq (Nat.sub_le ..) hr
  have hs : Int32.ofNat (624 - engine.cursor) - 1 = .ofNat (624 - (engine.cursor + 1)) := by
    rw [show 624 - engine.cursor = 624 - (engine.cursor + 1) + 1 by omega, Int32.ofNat_add]
    exact Int32.add_sub_cancel ..
  rw [hs] at hd
  rw [prepare, hd]
  change (if Int32.ofNat (624 - (engine.cursor + 1)) < 0 then _ else Except.ok _) = _
  rw [if_neg]
  rw [Int32.lt_iff_toInt_lt, Int32.toInt_ofNat_of_lt (by omega)]
  exact Int.not_lt.2 (Int.natCast_nonneg _)

theorem prepare_of_eq {engine : Engine} (hr : engine.remaining = 0) :
    engine.prepare = engine.regenerate.prepare := by
  have hd : engine.countDown = .ok { engine with remaining := -1 } :=
    countDown_eq (n := 0) (Nat.zero_le _) hr
  have hd' : engine.regenerate.countDown = .ok { engine.regenerate with remaining := 623 } :=
    countDown_eq (n := 624) (Nat.le_refl _) rfl
  rw [prepare, hd, prepare, hd']
  exact hd'

/-- Before the end of the block, the word at the cursor is handed out. -/
theorem next_run_of_lt {engine : Engine} (h : engine.cursor < 624)
    (hr : engine.remaining = .ofNat (624 - engine.cursor)) :
    next.run engine = .ok (engine.words[engine.cursor].temper,
      { engine with
        cursor := engine.cursor + 1
        remaining := .ofNat (624 - (engine.cursor + 1)) }) := by
  simp only [next, StateT.run, prepare_of_lt h hr, take, bind, Except.bind, pure, Except.pure,
    Vector.getElem?_eq_getElem h]

/-- At the end of the block, the block is regenerated first. -/
theorem next_run_of_eq {engine : Engine} (hr : engine.remaining = 0) :
    next.run engine = next.run engine.regenerate := by
  simp only [next, StateT.run, prepare_of_eq hr]

/-- A draw from an engine in step has an answer, and leaves it in step. -/
theorem InStep.next {engine : Engine} (h : engine.InStep) :
    ∃ w engine', Engine.next.run engine = .ok (w, engine') ∧ engine'.InStep := by
  obtain hc | hc := Nat.lt_or_eq_of_le h.cursor_le
  · exact ⟨_, _, next_run_of_lt hc h.remaining_eq, hc, rfl⟩
  · have hr : engine.remaining = 0 := by rw [h.remaining_eq, hc]; rfl
    rw [next_run_of_eq hr]
    exact ⟨_, _, next_run_of_lt (Nat.zero_lt_succ _) rfl, Nat.succ_le_succ (Nat.zero_le _), rfl⟩

end Engine

end Twister
