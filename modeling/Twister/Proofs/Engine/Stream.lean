import Twister.Engine.Snapshot
import Twister.Proofs.Block.Window
import Twister.Proofs.Draw.Views

/-!
# The stream of an engine

An engine in step is given by its block and its cursor (`Engine.ofBlock`). The words drawn from
it, one after the other, are the tempered words of the sequence that starts with the block, from
the cursor on, however often the block is regenerated meanwhile. Being lazy, the engine keeps a
block until a word of the next one is drawn: after drawing the word at place `p` of the sequence
it holds the window that contains `p`, and its cursor is just behind that place.

* `restore?_eq_ofBlock`: a snapshot with a block restores the engine in step;
* `next_run_ofBlock`: one draw, whether or not the block is used up;
* `isRun_ofBlock`: all draws, and the engines they leave;
* `draws_run_ofBlock`: any number of draws;
* `InStep.isRun`, `InStep.draws`: they have an answer, and leave the engine in step;
* `isSequence_iff`: the sequence and the words handed out for it, spelled out;
* `draws_run_eq_sequence`: the draws and what they leave, word by word.
-/

namespace Twister

namespace Block

/-- The sequence `x` that starts with the words of a block, and the words `z` handed out for it. A
    later word is made of a word `y` that has one bit of `x k` and 31 bits of `x (k + 1)`, and is
    mixed in four steps before it is handed out. -/
structure IsSequence (words : Block) (x z : Nat → Word) : Prop where
  first : ∀ i (_ : i < 624), x i = words[i]
  later : ∀ k, ∃ y, y = (x k &&& (0x80000000 : Word)) ||| (x (k + 1) &&& (0x7fffffff : Word)) ∧
    x (k + 624) = x (k + 397) ^^^ (y >>> (1 : Word)) ^^^ (if y % 2 = 1 then 0x9908b0df else 0)
  tempered : ∀ k, ∃ u v w, u = x k ^^^ (x k >>> (11 : Word)) ∧
    v = u ^^^ ((u <<< (7 : Word)) &&& (0x9d2c5680 : Word)) ∧
    w = v ^^^ ((v <<< (15 : Word)) &&& (0xefc60000 : Word)) ∧ z k = w ^^^ (w >>> (18 : Word))

theorem isSequence_iff {words : Block} {x z : Nat → Word} :
    words.IsSequence x z ↔ x = words.term ∧ z = fun k => (words.term k).temper := by
  constructor
  · intro h
    have hterm (k : Nat) : x k = words.term k := by
      induction k using term_induction with
      | first k hk => rw [h.first k hk, term_of_lt _ hk]
      | later k h₀ h₁ h₃₉₇ =>
        obtain ⟨y, hy, hx⟩ := h.later k
        rw [hx, hy, h₀, h₁, h₃₉₇, term_add]
        rfl
    refine ⟨funext hterm, funext fun k => ?_⟩
    obtain ⟨u, v, w, rfl, rfl, rfl, hz⟩ := h.tempered k
    rw [hz, hterm]
    rfl
  · rintro ⟨rfl, rfl⟩
    exact ⟨fun i hi => term_of_lt words hi, fun k => ⟨_, rfl, term_add words k⟩,
      fun k => ⟨_, _, _, rfl, rfl, rfl, rfl⟩⟩

end Block

namespace Engine

open WordSource (IsRun draws)

/-- The engine in step with the given block and cursor. -/
def ofBlock (words : Block) (cursor : Nat) : Engine :=
  { words, cursor, remaining := .ofNat (624 - cursor) }

theorem inStep_ofBlock (words : Block) {cursor : Nat} (h : cursor ≤ 624) :
    (ofBlock words cursor).InStep :=
  ⟨h, rfl⟩

theorem InStep.eq_ofBlock {engine : Engine} (h : engine.InStep) :
    engine = ofBlock engine.words engine.cursor := by
  obtain ⟨words, cursor, remaining⟩ := engine
  rw [ofBlock, ← h.remaining_eq]

theorem restore?_eq_ofBlock (words : Block) {cursor : Nat} (h : cursor ≤ 624) :
    Snapshot.restore? ⟨words.toList, cursor⟩ = .ok (ofBlock words cursor) :=
  Snapshot.restore?_eq_ok_iff.2 ⟨h, rfl, rfl⟩

/-- Drawing the word at place `cursor` of the sequence. -/
theorem next_run_ofBlock (words : Block) {cursor : Nat} (h : cursor ≤ 624) :
    next.run (ofBlock words cursor) = .ok ((words.term cursor).temper,
      ofBlock (words.window (624 * (cursor / 624))) (cursor % 624 + 1)) := by
  rcases Nat.lt_or_eq_of_le h with hc | rfl
  · have hrun : next.run (ofBlock words cursor) =
        .ok (words[cursor].temper, ofBlock words (cursor + 1)) := next_run_of_lt hc rfl
    rw [hrun, Nat.div_eq_of_lt hc, Nat.mod_eq_of_lt hc, Block.term_of_lt words hc, Nat.mul_zero,
      Block.window_zero]
  · -- The block is used up: the draw is one from the block that follows.
    have hfull : next.run (ofBlock words 624) = next.run (ofBlock words.regenerate 0) :=
      next_run_of_eq rfl
    have hrun : next.run (ofBlock words.regenerate 0) =
        .ok (words.regenerate[0].temper, ofBlock words.regenerate 1) :=
      next_run_of_lt (Nat.zero_lt_succ _) rfl
    rw [hfull, hrun, Block.getElem_regenerate, Block.regenerate_eq_window]

/-- The engine after `n` draws from the one with the given block and cursor. -/
def afterDraws (words : Block) (cursor : Nat) : Nat → Engine
  | 0 => ofBlock words cursor
  | n + 1 => ofBlock (words.window (624 * ((cursor + n) / 624))) ((cursor + n) % 624 + 1)

/-- After `n` draws an engine holds a window of the sequence that it started with, at a place that
    does not depend on the words. -/
theorem exists_words_afterDraws (cursor n : Nat) :
    ∃ m, ∀ words, (afterDraws words cursor n).words = words.window m := by
  cases n with
  | zero => exact ⟨0, fun words => words.window_zero.symm⟩
  | succ n => exact ⟨_, fun _ => rfl⟩

theorem cursor_afterDraws_eq (words words' : Block) (cursor n : Nat) :
    (afterDraws words cursor n).cursor = (afterDraws words' cursor n).cursor := by
  cases n with
  | zero => simp only [afterDraws, ofBlock]
  | succ n => simp only [afterDraws, ofBlock]

/-- An engine runs through the sequence that starts with its block, from the cursor on. -/
theorem isRun_ofBlock (words : Block) {cursor : Nat} (h : cursor ≤ 624) :
    IsRun (ofBlock words cursor) (afterDraws words cursor)
      fun n => (words.term (cursor + n)).temper where
  init := rfl
  step n := by
    cases n with
    | zero => exact next_run_ofBlock words h
    | succ n =>
      have hle : (cursor + n) % 624 + 1 ≤ 624 := Nat.succ_le_of_lt (Nat.mod_lt _ (by decide))
      have hrun := next_run_ofBlock (words.window (624 * ((cursor + n) / 624))) hle
      -- The window and the cursor in it stand for one place of the sequence.
      have hplace : 624 * ((cursor + n) / 624) + ((cursor + n) % 624 + 1) = cursor + (n + 1) := by
        omega
      have hblock : (cursor + n) / 624 + ((cursor + n) % 624 + 1) / 624 =
          (cursor + (n + 1)) / 624 := by
        omega
      have hcursor : ((cursor + n) % 624 + 1) % 624 = (cursor + (n + 1)) % 624 := by
        omega
      rw [Block.term_window, Block.window_window, ← Nat.mul_add, hplace, hblock, hcursor] at hrun
      exact hrun

/-- Drawing `n + 1` words, from place `cursor` of the sequence on. -/
theorem draws_run_ofBlock (words : Block) {cursor : Nat} (h : cursor ≤ 624) (n : Nat) :
    (draws (n + 1)).run (ofBlock words cursor) =
      .ok ((List.range (n + 1)).map fun i => (words.term (cursor + i)).temper,
        ofBlock (words.window (624 * ((cursor + n) / 624))) ((cursor + n) % 624 + 1)) :=
  (isRun_ofBlock words h).draws (n + 1)

theorem inStep_afterDraws (words : Block) {cursor : Nat} (h : cursor ≤ 624) (n : Nat) :
    (afterDraws words cursor n).InStep := by
  cases n with
  | zero => exact inStep_ofBlock words h
  | succ n => exact inStep_ofBlock _ (Nat.succ_le_of_lt (Nat.mod_lt _ (by decide)))

theorem InStep.isRun {engine : Engine} (h : engine.InStep) :
    IsRun engine (afterDraws engine.words engine.cursor)
      fun n => (engine.words.term (engine.cursor + n)).temper := by
  have hrun := isRun_ofBlock engine.words h.cursor_le
  rwa [← h.eq_ofBlock] at hrun

/-- Drawing any number of words from an engine in step has an answer, and leaves it in step. -/
theorem InStep.draws {engine : Engine} (h : engine.InStep) (n : Nat) :
    ∃ ws engine', (WordSource.draws n).run engine = .ok (ws, engine') ∧ engine'.InStep :=
  ⟨_, _, h.isRun.draws n, inStep_afterDraws engine.words h.cursor_le n⟩

/-- An engine hands out the sequence that starts with its block, and regenerates the block no
    sooner than it has to. -/
theorem draws_run_eq_sequence (words : Block) {cursor : Nat} (h : cursor ≤ 624) :
    ∃ x z : Nat → Word, (∀ x' z', words.IsSequence x' z' ↔ x' = x ∧ z' = z) ∧
      ∀ n, ∃ engine : Engine,
        (WordSource.draws (n + 1)).run
            { words, cursor, remaining := .ofNat (624 - cursor) : Engine } =
          .ok ((List.range (n + 1)).map fun i => z (cursor + i), engine) ∧
        (∀ i (_ : i < 624), engine.words[i] = x (624 * ((cursor + n) / 624) + i)) ∧
        engine.words = Block.regenerate^[(cursor + n) / 624] words ∧
        engine.cursor = (cursor + n) % 624 + 1 := by
  refine ⟨_, _, fun _ _ => Block.isSequence_iff, fun n => ?_⟩
  refine ⟨_, draws_run_ofBlock words h n, fun i hi => ?_, ?_, rfl⟩
  · exact Block.getElem_window ..
  · exact (Block.iterate_regenerate words _).symm

/-- With one word of the block left, the second draw regenerates it. -/
theorem draws_run_eq_sequence_two_blocks :
    623 ≤ 624 ∧ ∃ engine : Engine,
      (WordSource.draws 2).run
          { words := .replicate 624 1, cursor := 623, remaining := 1 : Engine } =
        .ok ([0x00400091, 0xfed7ea7d], engine) ∧
      engine.words.head = 0x9908b0de ∧
      engine.words = Block.regenerate (.replicate 624 1) ∧ engine.cursor = 1 := by
  have hle : 623 ≤ 624 := by decide
  obtain ⟨x, z, hsequence, hdraws⟩ := draws_run_eq_sequence (.replicate 624 1) hle
  have h := (hsequence x z).2 ⟨rfl, rfl⟩
  have hone {i : Nat} (hi : i < 624) : x i = 1 :=
    (h.first i hi).trans (Vector.getElem_replicate hi)
  have hnew : x 624 = 0x9908b0de := by
    obtain ⟨y, rfl, hx⟩ := h.later 0
    rw [hone (i := 0) (by decide), hone (i := 0 + 1) (by decide),
      hone (i := 0 + 397) (by decide)] at hx
    exact hx.trans (by decide)
  have hlast : z 623 = 0x00400091 := by
    obtain ⟨u, v, w, rfl, rfl, rfl, hz⟩ := h.tempered 623
    rw [hone (by decide)] at hz
    exact hz.trans (by decide)
  have hnext : z 624 = 0xfed7ea7d := by
    obtain ⟨u, v, w, rfl, rfl, rfl, hz⟩ := h.tempered 624
    rw [hnew] at hz
    exact hz.trans (by decide)
  obtain ⟨engine, hrun, hwords, hblock, hcursor⟩ := hdraws 1
  have hlist : (List.range (1 + 1)).map (fun i => z (623 + i)) = [0x00400091, 0xfed7ea7d] := by
    rw [← hlast, ← hnext]
    rfl
  rw [hlist] at hrun
  exact ⟨hle, engine, hrun, (hwords 0 (by decide)).trans hnew, hblock, hcursor⟩

end Engine

end Twister
