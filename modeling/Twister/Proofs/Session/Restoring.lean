import Twister.Proofs.Engine.Observation
import Twister.Proofs.Session.Reachable

/-!
# Engines restored

A snapshot leaves out the number of words that remain. For an engine in step nothing is lost by
this, as the number is worked out from the cursor: restored, the snapshot gives back the engine,
whatever stood in its place before. So the two go on in the same way, and an engine can be taken
back to where its snapshot was taken.

A snapshot may also be made up. Whoever sees 624 consecutive draws of an engine can tell all that it
draws later. Undoing the tempering gives a window of its sequence, wherever the engine stood in its
block, and this window starts the rest of the sequence. An engine restored with it, as a block that
is used up, is a *clone*. It draws the same words, but it has its own blocks: if the draws began in
the middle of a block, those of the engine start at other places of the sequence.

* `InStep.restore?_snapshot`: the snapshot of an engine in step restores the engine;
* `snapshot_complete`: what follows for the runs of reachable engines;
* `TempersTo.unique`: a block is known from its draws;
* `Engine.clone_from_draws`: the clone draws what the engine draws from then on.
-/

namespace Twister

theorem Engine.InStep.restore?_snapshot {engine : Engine} (h : engine.InStep) :
    engine.snapshot.restore? = .ok engine :=
  Snapshot.restore?_eq_ok_iff.2 ⟨h.cursor_le, rfl, h.remaining_eq⟩

/-- A snapshot holds all that matters of a reachable engine, and is what looking at its block and
    at its cursor answers. It restores the engine in the place of any other, which then does what
    the engine does, and in the place of the engine itself, after whatever was done with it. -/
theorem snapshot_complete {engine : Engine} (h : engine.Reachable) (entropy : Entropy) :
    ((Action.run [.words, .cursor]).run engine).run entropy =
      (([.words engine.snapshot.words, .cursor engine.snapshot.cursor], engine), entropy) ∧
    (∀ other : Engine, ((Action.restore engine.snapshot).perform.run other).run entropy =
      ((.done, engine), entropy)) ∧
    ∀ actions, ∃ replies engine' entropy',
      ((Action.run actions).run engine).run entropy = ((replies, engine'), entropy') ∧
      (∀ other : Engine,
        ((Action.run (.restore engine.snapshot :: actions)).run other).run entropy =
          ((.done :: replies, engine'), entropy')) ∧
      ((Action.run (actions ++ [.restore engine.snapshot])).run engine).run entropy =
        ((replies ++ [.done], engine), entropy') := by
  -- Neither what stands in the place of the engine nor the entropy matters.
  have hrestore (other : Engine) (entropy : Entropy) :
      ((Action.restore engine.snapshot).perform.run other).run entropy =
        ((.done, engine), entropy) :=
    Action.perform_restore_run h.inStep.restore?_snapshot
  refine ⟨rfl, fun other => hrestore other entropy, fun actions => ?_⟩
  obtain ⟨replies, engine', entropy', hrun, -⟩ := h.inStep.run actions entropy
  refine ⟨replies, engine', entropy', hrun, fun other => ?_, ?_⟩
  · exact Action.run_cons_run (hrestore other entropy) hrun
  · have hlast : ((Action.run [.restore engine.snapshot]).run engine').run entropy' =
        (([.done], engine), entropy') := Action.run_cons_run (hrestore engine' entropy') rfl
    exact Action.run_append_run hrun hlast

/-- An engine is taken back over a draw, and over the loss of its seed. -/
theorem snapshot_complete_ofBytes :
    (Engine.ofBytes #v[1, 0, 0, 0]).Reachable ∧
    (∀ other : Engine,
      ((Action.restore (Engine.ofBytes #v[1, 0, 0, 0]).snapshot).perform.run other).run {} =
        ((.done, .ofBytes #v[1, 0, 0, 0]), {})) ∧
    ∃ replies entropy,
      ((Action.run [.draw .long, .reseedFrom .clock,
          .restore (Engine.ofBytes #v[1, 0, 0, 0]).snapshot]).run
        (.ofBytes #v[1, 0, 0, 0])).run {} =
        ((replies ++ [.done], .ofBytes #v[1, 0, 0, 0]), entropy) := by
  have h : (Engine.ofBytes #v[1, 0, 0, 0]).Reachable := .createdOfBytes _
  obtain ⟨-, hrestore, hruns⟩ := snapshot_complete h {}
  obtain ⟨replies, _, entropy, _, _, hback⟩ := hruns [.draw .long, .reseedFrom .clock]
  exact ⟨h, hrestore, replies, entropy, hback⟩

/-! ## Clones -/

namespace Block

/-- The words of a block temper to the first 624 words of `ws`. -/
def TempersTo (words : Block) (ws : Nat → Word) : Prop :=
  ∀ i (_ : i < 624), words[i].temper = ws i

theorem TempersTo.unique {words words' : Block} {ws : Nat → Word} (h : words.TempersTo ws)
    (h' : words'.TempersTo ws) : words = words' :=
  Vector.ext fun i hi => Word.temper_injective ((h i hi).trans (h' i hi).symm)

/-- What is drawn from place `m` on comes of the window at that place. -/
theorem tempersTo_window (words : Block) (m : Nat) :
    (words.window m).TempersTo fun n => (words.term (m + n)).temper := by
  intro i hi
  rw [getElem_window]

/-- The words of this block are all `1`, but the first of the next block is another word. So the
    window from place `1` is neither of the two blocks. -/
theorem window_replicate_one_ne :
    window (.replicate 624 1) 1 ≠ window (.replicate 624 1) 624 := by
  intro h
  have hone {k : Nat} (hk : k < 624) : term (.replicate 624 1) k = 1 := by
    rw [term_of_lt _ hk, Vector.getElem_replicate]
  have hfirst := congrArg Vector.head h
  rw [head_eq_term, head_eq_term, term_window, term_window, hone (k := 1 + 0) (by decide),
    term_add _ 0, hone (by decide), hone (by decide), hone (by decide)] at hfirst
  exact absurd hfirst (by decide)

end Block

namespace Engine

open WordSource (IsRun)

/-- An engine restored with the window at place `m` draws what comes after this window. -/
theorem isRun_ofBlock_window (words : Block) (m : Nat) :
    IsRun (ofBlock (words.window m) 624) (afterDraws (words.window m) 624)
      fun n => (words.term (m + (624 + n))).temper := by
  have hrun := isRun_ofBlock (words.window m) (Nat.le_refl 624)
  simpa only [Block.term_window] using hrun

/-- From the next 624 draws of an engine one block can be made, and an engine restored with it, as
    one that is used up, goes on as the engine does after these draws. Yet the two need not be
    equal, neither in their words nor in their cursors. -/
theorem clone_from_draws :
    (∀ engine : Engine, engine.Reachable → ∃ ρ ws, IsRun engine ρ ws ∧
      (∃! words : Block, words.TempersTo ws) ∧
      ∀ words : Block, words.TempersTo ws → ∃ clone ρ' ws',
        Snapshot.restore? ⟨words.toList, 624⟩ = .ok clone ∧ IsRun clone ρ' ws' ∧
        ∀ n, ws' n = ws (624 + n)) ∧
    ∃ engine : Engine, engine.Reachable ∧ ∃ ρ ws words clone, IsRun engine ρ ws ∧
      Block.TempersTo words ws ∧ Snapshot.restore? ⟨words.toList, 624⟩ = .ok clone ∧
      clone.cursor ≠ (ρ 624).cursor ∧ clone.words ≠ (ρ 624).words := by
  constructor
  · intro engine h
    have hwindow := Block.tempersTo_window engine.words engine.cursor
    refine ⟨_, _, h.inStep.isRun, ⟨_, hwindow, fun words hwords => hwords.unique hwindow⟩, ?_⟩
    intro words hwords
    rw [hwords.unique hwindow]
    exact ⟨_, _, _, restore?_eq_ofBlock _ (Nat.le_refl 624), isRun_ofBlock_window _ _,
      fun n => rfl⟩
  · -- One word is handed out: the clone has the window from place `1`, the engine the next block.
    have hle : 1 ≤ 624 := by decide
    refine ⟨_, reachable_ofBlock (.replicate 624 1) hle, _, _, _, _, isRun_ofBlock _ hle,
      Block.tempersTo_window _ 1, restore?_eq_ofBlock _ (Nat.le_refl 624), ?_,
      Block.window_replicate_one_ne⟩
    change 624 ≠ (1 + 623) % 624 + 1
    decide

/-- The clone of an engine with one word handed out. -/
theorem clone_from_draws_mid_block :
    (ofBlock (.replicate 624 1) 1).Reachable ∧ ∃ ρ ws words clone ρ' ws',
      IsRun (ofBlock (.replicate 624 1) 1) ρ ws ∧ Block.TempersTo words ws ∧
      Snapshot.restore? ⟨words.toList, 624⟩ = .ok clone ∧ IsRun clone ρ' ws' ∧
      ∀ n, ws' n = ws (624 + n) := by
  have h : (ofBlock (.replicate 624 1) 1).Reachable := reachable_ofBlock _ (by decide)
  obtain ⟨ρ, ws, hrun, ⟨words, hwords, -⟩, hclones⟩ := clone_from_draws.1 _ h
  obtain ⟨clone, ρ', ws', hclone, hrun', hsame⟩ := hclones words hwords
  exact ⟨h, ρ, ws, words, clone, ρ', ws', hrun, hwords, hclone, hrun', hsame⟩

end Engine

end Twister
