import Twister.Proofs.Block.Dead
import Twister.Proofs.Engine.Observation
import Twister.Proofs.Engine.Seeding

/-!
# Engines in the long run

However long an engine runs, its block is a window of the sequence it started with
(`exists_words_afterDraws`); so what is known of all windows of a sequence is known of the engine at
all times. In particular a seeded engine, which draws from the sequence of the seeded block,
never comes to a dead block. And as a sequence is periodic from place `1` on, so are the draws, with
the exception of a draw of word `0`, which shows bits that the sequence does not depend on.

* `given_seed_never_dead`: a seeded engine always goes on to draw other words than `0`;
* `streams_periodic`: the draws of an engine are on their cycle from the start.
-/

namespace Twister

namespace Block

/-- Zeros are drawn for the length of a block exactly where the window is zero. -/
theorem window_eq_zero_iff_temper_eq_zero {words : Block} {m : Nat} :
    words.window m = zero ↔ ∀ n < 624, (words.term (m + n)).temper = 0 := by
  rw [← zero_window m, window_eq_iff_temper_eq]
  simp only [zero_term, Word.linear_temper.map_zero]

/-- Among 624 consecutive draws from the sequence of a seeded block not all are `0`. -/
theorem exists_temper_ofSeed_ne_zero (seed : Word) (m : Nat) :
    ∃ i < 624, ((ofSeed seed).term (m + 1 + i)).temper ≠ 0 := by
  by_contra hzero
  refine window_ofSeed_ne_zero seed m (window_eq_zero_iff_temper_eq_zero.2 fun i hi => ?_)
  by_contra hne
  exact hzero ⟨i, hi, hne⟩

end Block

namespace Engine

open WordSource (IsRun)

/-- Dead blocks are those followed by zeros for ever. A given seed never leads to one, nor to
    624 consecutive draws of `0`. -/
theorem given_seed_never_dead :
    (∀ words : Block, words.Dead ↔ ∀ q, Block.regenerate^[q + 1] words = .zero) ∧
    ∀ (wall : Reading) (mixer : Mixer) (seed : Word), ∃ engine ρ ws,
      (ofOrigin wall (.given seed)).run mixer = (engine, mixer) ∧ IsRun engine ρ ws ∧
      (∀ n, ∃ i < 624, ws (n + i) ≠ 0) ∧ ∀ n, ¬(ρ n).words.Dead := by
  refine ⟨fun _ => Block.dead_iff, fun wall mixer seed => ?_⟩
  refine ⟨ofSeed seed, _, _, rfl, isRun_ofSeed seed, fun n => ?_, fun n => ?_⟩
  · obtain ⟨i, hi, hne⟩ := Block.exists_temper_ofSeed_ne_zero seed (623 + n)
    rw [show 623 + n + 1 + i = 624 + (n + i) by omega] at hne
    exact ⟨i, hi, hne⟩
  · obtain ⟨m, hm⟩ := exists_words_afterDraws 0 n
    rw [hm, Block.regenerate_eq_window, Block.window_window, Nat.add_comm]
    exact Block.not_dead_window_ofSeed seed (m + 623)

/-- The draws of an engine come back from the first of them on, or from the second on if the first
    is of word `0` of a restored block. -/
theorem streams_periodic :
    (∀ (wall : Reading) (mixer : Mixer) (seed : Word), ∃ engine ρ ws,
      (ofOrigin wall (.given seed)).run mixer = (engine, mixer) ∧ IsRun engine ρ ws ∧
      ∃ p, 1 ≤ p ∧ ∀ n, ws (n + p) = ws n) ∧
    ∀ (words : Block) (cursor : Nat), cursor ≤ 624 → ∃ engine ρ ws,
      Snapshot.restore? ⟨words.toList, cursor⟩ = .ok engine ∧ IsRun engine ρ ws ∧
      ∃ p, 1 ≤ p ∧ ∀ n, 1 ≤ cursor ∨ 1 ≤ n → ws (n + p) = ws n := by
  constructor
  · intro wall mixer seed
    obtain ⟨p, hpos, hp⟩ := (Block.ofSeed seed).exists_period
    refine ⟨ofSeed seed, _, _, rfl, isRun_ofSeed seed, p, hpos, fun n => ?_⟩
    rw [← Nat.add_assoc, hp (624 + n) (by omega)]
  · intro words cursor h
    obtain ⟨p, hpos, hp⟩ := words.exists_period
    refine ⟨_, _, _, restore?_eq_ofBlock words h, isRun_ofBlock words h, p, hpos, fun n hn => ?_⟩
    rw [← Nat.add_assoc, hp (cursor + n) (by omega)]

/-- The second draw from a block comes back, and the first one from the place after word `0`. -/
theorem streams_periodic_replicate_one :
    (0 ≤ 624 ∧ ∃ engine ρ ws,
      Snapshot.restore? ⟨(Vector.replicate 624 1 : Block).toList, 0⟩ = .ok engine ∧
      IsRun engine ρ ws ∧ ∃ p, 1 ≤ p ∧ ws (1 + p) = ws 1) ∧
    1 ≤ 624 ∧ ∃ engine ρ ws,
      Snapshot.restore? ⟨(Vector.replicate 624 1 : Block).toList, 1⟩ = .ok engine ∧
      IsRun engine ρ ws ∧ ∃ p, 1 ≤ p ∧ ws (0 + p) = ws 0 := by
  have hle : 1 ≤ 624 := by decide
  obtain ⟨engine, ρ, ws, he, hρ, p, hpos, hp⟩ :=
    streams_periodic.2 (.replicate 624 1) 0 (Nat.zero_le 624)
  obtain ⟨engine', ρ', ws', he', hρ', p', hpos', hp'⟩ := streams_periodic.2 (.replicate 624 1) 1 hle
  exact ⟨⟨Nat.zero_le 624, engine, ρ, ws, he, hρ, p, hpos, hp 1 (.inr (Nat.le_refl 1))⟩,
    hle, engine', ρ', ws', he', hρ', p', hpos', hp' 0 (.inl (Nat.le_refl 1))⟩

end Engine

end Twister
