import Twister.Engine.Seeding
import Twister.Proofs.Block.Seeds
import Twister.Proofs.Engine.Stream

/-!
# Seeded engines

An engine is seeded in many ways: it is made or seeded anew, and the seed is given, read from
bytes, made from the reading of a clock, or drawn from a parent. All of them come to the same
engine (`Engine.IsSeeded`), which depends on the seed alone, and neither on what was seeded nor on
where the seed came from.

The word that asks for the clock is a seed like all others, except where an engine is made or
seeded with a word: there it uses the mixer of the wall clock, and no given seed does that.

An engine seeded with a given seed starts at the first word of a fresh block, so that its first
624 draws show the whole block. As tempering loses nothing, different blocks are told apart by
these draws, and as the low bit is all that a block forgets of its seed, so are different seeds.

* `isSeeded_iff`: the engine of a seed, word by word;
* `seedings_agree`: every way of seeding gives this engine;
* `isRun_ofSeed`: all draws of a seeded engine;
* `given_seeds_told_apart`: they tell seeds apart, up to the low bit.
-/

namespace Twister.Engine

open Seeded (lcg)
open WordSource (IsRun draws)

/-- The engine of a seed. None of its words has been handed out. They are regenerated from a block
    that has the upper halves of the values `z 0, z 2, …` of a linear congruential generator above
    the upper halves of their products with the multiplier. -/
structure IsSeeded (seed : Word) (engine : Engine) : Prop where
  cursor_eq : engine.cursor = 0
  remaining_eq : engine.remaining = 624
  words_eq : ∃ (z : Nat → Word) (words : Block), z 0 = seed ||| 1 ∧
    (∀ k, z (k + 1) = 69069 * z k + 1) ∧
    (∀ i (_ : i < 624), words[i] =
      (z (2 * i) &&& (0xffff0000 : Word)) ||| ((69069 * z (2 * i)) >>> (16 : Word))) ∧
    engine.words = words.regenerate

theorem isSeeded_ofSeed (seed : Word) : (ofSeed seed).IsSeeded seed := by
  refine ⟨cursor_ofSeed seed, remaining_ofSeed seed, fun k => lcg^[k] (seed ||| 1), .ofSeed seed,
    rfl, fun k => ?_, fun i hi => ?_, words_ofSeed seed⟩
  · exact Function.iterate_succ_apply' lcg k (seed ||| 1)
  · rw [Block.getElem_ofSeed, Seeded.word, UInt32.or_comm]
    rfl

theorem isSeeded_iff {seed : Word} {engine : Engine} :
    engine.IsSeeded seed ↔ engine = ofSeed seed := by
  constructor
  · rintro ⟨hcursor, hremaining, z, words, hz, hstep, hwords, hengine⟩
    have hvalue (k : Nat) : z k = lcg^[k] (seed ||| 1) := by
      induction k with
      | zero => exact hz
      | succ k ih =>
        rw [hstep, ih, Function.iterate_succ_apply']
        rfl
    have hblock : words = .ofSeed seed := by
      refine Vector.ext fun i hi => ?_
      rw [hwords i hi, hvalue, UInt32.or_comm, Block.getElem_ofSeed]
      rfl
    obtain ⟨words', cursor, remaining⟩ := engine
    simp only at hcursor hremaining hengine
    rw [hcursor, hremaining, hengine, hblock]
    simp only [ofSeed, reseed, regenerate]
  · rintro rfl
    exact isSeeded_ofSeed seed

/-! ## Seeds that are not given -/

/-- A parent gives a child the next word it draws as a seed. -/
theorem ofParent_run {σ : Type} [WordSource σ] {parent parent' : σ} {seed : Word}
    (h : WordSource.next.run parent = .ok (seed, parent')) :
    ofParent.run parent = .ok (some (ofSeed seed), parent') := by
  have hfill : (WordSource.fill [0, 0, 0, 0] : Drawing σ (List UInt8)) =
      (fun w => w.bytes.toList) <$> WordSource.next := by
    simp [WordSource.fill]
  have hbytes : Vector.ofFn (fun i : Fin 4 => seed.bytes.toList.getD i 0) = seed.bytes := rfl
  rw [ofParent_eq, hfill, run_map_of_run (run_map_of_run h _), hbytes, ofBytes,
    Word.ofBytes_bytes]
  rfl

/-- Seeding from a reading of which the mixer makes the seed. -/
theorem reseedByClock_run_of_seed (engine : Engine) {reading : Reading} {mixer mixer' : Mixer}
    {seed : Word} (h : (Mixer.seed reading).run mixer = (seed, mixer')) :
    (engine.reseedByClock reading).run mixer = (ofSeed seed, mixer') := by
  rw [Mixer.seed_run, Prod.mk.injEq] at h
  rw [reseedByClock_run, h.1, h.2]

/-- A word is taken for a seed unless it asks for the clock, which does not leave the mixer as it
    is. -/
theorem reseedByWord_run_iff (engine : Engine) (wall : Reading) (mixer : Mixer) (w : Word) :
    (engine.reseedByWord wall w).run mixer = (ofSeed w, mixer) ↔ w ≠ SeedOrigin.clockWord := by
  constructor
  · rintro h rfl
    have hcount : mixer.count + 1 = mixer.count := congrArg (fun run => run.2.count) h
    exact absurd (UInt32.add_eq_left.1 hcount) (by decide)
  · intro h
    rw [reseedByWord, SeedOrigin.ofWord_of_ne h]
    rfl

/-- All ways of seeding with a seed give one engine, the only one of this seed, whatever was
    seeded. They use no mixer unless the seed is made from a reading, and a parent is left as after
    drawing one word. Only where an engine is made or seeded with a word, one word does not stand
    for itself. -/
theorem seedings_agree (seed : Word) :
    ∃ seeded : Engine, (∀ engine : Engine, engine.IsSeeded seed ↔ engine = seeded) ∧
      ofBytes seed.bytes = seeded ∧
      (∀ {σ : Type} [WordSource σ] (parent parent' : σ),
        WordSource.next.run parent = .ok (seed, parent') →
          ofParent.run parent = .ok (some seeded, parent')) ∧
      ∀ (engine : Engine) (wall : Reading) (mixer : Mixer),
        (ofOrigin wall (.given seed)).run mixer = (seeded, mixer) ∧
        (engine.reseedFrom wall (.given seed)).run mixer = (seeded, mixer) ∧
        ((ofWord wall seed).run mixer = (seeded, mixer) ↔ seed ≠ SeedOrigin.clockWord) ∧
        ((engine.reseedByWord wall seed).run mixer = (seeded, mixer) ↔
          seed ≠ SeedOrigin.clockWord) ∧
        ∀ (reading : Reading) (mixer' : Mixer),
          (Mixer.seed reading).run mixer = (seed, mixer') →
            (engine.reseedByClock reading).run mixer = (seeded, mixer') := by
  refine ⟨ofSeed seed, fun _ => isSeeded_iff, ?_, fun _ _ => ofParent_run,
    fun engine wall mixer => ⟨rfl, rfl, ?_, ?_, fun _ _ => reseedByClock_run_of_seed engine⟩⟩
  · rw [ofBytes, Word.ofBytes_bytes]
  · exact reseedByWord_run_iff blank wall mixer seed
  · exact reseedByWord_run_iff engine wall mixer seed

/-- The word that asks for the clock, drawn from a parent and made by a mixer. -/
theorem seedings_agree_clockWord :
    ∃ (seeded : Engine) (script : Script), seeded.IsSeeded 0xffffffff ∧
      WordSource.next.run script = .ok (0xffffffff, { script with drawn := 1 }) ∧
      ofParent.run script = .ok (some seeded, { script with drawn := 1 }) ∧
      (Mixer.seed ⟨0, 0⟩).run ⟨0xffffffff⟩ = (0xffffffff, ⟨0⟩) ∧
      (seeded.reseedByClock ⟨0, 0⟩).run ⟨0xffffffff⟩ = (seeded, ⟨0⟩) := by
  obtain ⟨seeded, hseeded, -, hparent, hrest⟩ := seedings_agree 0xffffffff
  obtain ⟨-, -, -, -, hclock⟩ := hrest seeded ⟨0, 0⟩ ⟨0xffffffff⟩
  have hdrawn := Script.next_run_singleton 0xffffffff
  have hmixed : (Mixer.seed ⟨0, 0⟩).run ⟨0xffffffff⟩ = (0xffffffff, ⟨0⟩) := rfl
  exact ⟨seeded, _, (hseeded seeded).2 rfl, hdrawn, hparent _ _ hdrawn, hmixed, hclock _ _ hmixed⟩

/-! ## Draws of a seeded engine -/

theorem ofSeed_eq_ofBlock (seed : Word) :
    ofSeed seed = ofBlock (Block.ofSeed seed).regenerate 0 := by
  simp only [ofSeed, reseed, regenerate]
  rfl

/-- Drawing all words of a block. -/
theorem draws_run_ofBlock_zero (words : Block) :
    (draws 624).run (ofBlock words 0) =
      .ok (words.toList.map Word.temper, ofBlock words 624) := by
  have hrun := draws_run_ofBlock words (Nat.zero_le 624) 623
  have hlist : (List.range 624).map (fun i => (words.term (0 + i)).temper) =
      words.toList.map Word.temper := by
    apply List.ext_getElem
    · simp only [List.length_map, List.length_range, Vector.length_toList]
    · intro i hi hi'
      rw [List.length_map, Vector.length_toList] at hi'
      rw [List.getElem_map, List.getElem_map, List.getElem_range, Vector.getElem_toList,
        Nat.zero_add, Block.term_of_lt words hi']
  rw [hlist] at hrun
  exact hrun.trans (by rw [Block.window_zero])

theorem draws_run_ofSeed (seed : Word) :
    (draws 624).run (ofSeed seed) = .ok ((Block.ofSeed seed).regenerate.toList.map Word.temper,
      ofBlock (Block.ofSeed seed).regenerate 624) := by
  rw [ofSeed_eq_ofBlock, draws_run_ofBlock_zero]

/-- A seeded engine runs through the sequence of the seeded block, from the second block on. -/
theorem isRun_ofSeed (seed : Word) :
    IsRun (ofSeed seed) (afterDraws (Block.ofSeed seed).regenerate 0)
      fun n => ((Block.ofSeed seed).term (624 + n)).temper := by
  have hrun := isRun_ofBlock (Block.ofSeed seed).regenerate (Nat.zero_le 624)
  rw [← ofSeed_eq_ofBlock] at hrun
  have hterm (n : Nat) : (Block.ofSeed seed).regenerate.term (0 + n) =
      (Block.ofSeed seed).term (624 + n) := by
    rw [Block.regenerate_eq_window, Block.term_window, Nat.zero_add]
  simpa only [hterm] using hrun

theorem ofSeed_inj {seed seed' : Word} : ofSeed seed = ofSeed seed' ↔ seed ||| 1 = seed' ||| 1 := by
  rw [← Block.regenerate_ofSeed_eq_iff]
  constructor
  · intro h
    rw [← words_ofSeed, ← words_ofSeed, h]
  · intro h
    rw [ofSeed_eq_ofBlock, ofSeed_eq_ofBlock, h]

/-- Of a given seed an engine forgets the low bit and nothing else, and what it remembers shows in
    the words drawn from it before its block is used up. -/
theorem given_seeds_told_apart (wall : Reading) (mixer : Mixer) (seed seed' : Word) :
    ∃ engine engine' ws ws' rest rest',
      (ofOrigin wall (.given seed)).run mixer = (engine, mixer) ∧
      (ofOrigin wall (.given seed')).run mixer = (engine', mixer) ∧
      (draws 624).run engine = .ok (ws, rest) ∧ (draws 624).run engine' = .ok (ws', rest') ∧
      (engine = engine' ↔ seed ||| 1 = seed' ||| 1) ∧
      (ws = ws' ↔ seed ||| 1 = seed' ||| 1) := by
  refine ⟨ofSeed seed, ofSeed seed', _, _, _, _, rfl, rfl, draws_run_ofSeed seed,
    draws_run_ofSeed seed', ofSeed_inj, ?_⟩
  rw [List.map_inj_right Word.temper_injective, Vector.toList_inj, Block.regenerate_ofSeed_eq_iff]

end Twister.Engine
