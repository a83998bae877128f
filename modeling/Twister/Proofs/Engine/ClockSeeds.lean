import Twister.Proofs.Engine.Seeding
import Twister.Proofs.Seed.Counting

/-!
# Engines seeded from one reading

A clock may show the same reading for a long time, and then the count of the mixer is all that
tells one seeding from the next. The seeds are different as long as the count has not come round.
The engines need not be: they forget the lowest bit of their seed, and with it the lowest bit of
the sum that the count is part of. So at any count there is exactly one other that leads to the same
engine, and it is the next one or the last one.

* `ofSeed_value_eq_iff`: the engines of two counts;
* `existsUnique_half_eq`: the two sums that differ in the lowest bit;
* `clock_seedings_coincide_iff`: what follows for seedings from one reading, whatever else the
  mixer is used for.
-/

namespace Twister.Engine

/-- Seeding from a reading, and what comes after. -/
theorem reseedByClock_bind_run {α : Type} (engine : Engine) (reading : Reading)
    (rest : Engine → StateM Mixer α) (mixer : Mixer) :
    (engine.reseedByClock reading >>= rest).run mixer =
      (rest (ofSeed (Mixer.value reading.seconds reading.ticks mixer.count))).run
        (mixer.advance 1) := by
  rw [StateT.run_bind, reseedByClock_run]
  rfl

theorem ofSeed_value_eq_iff {a b count count' : Word} :
    ofSeed (Mixer.value a b count) = ofSeed (Mixer.value a b count') ↔
      (a.base257 + count) ||| 1 = (a.base257 + count') ||| 1 := by
  rw [ofSeed_inj, Mixer.value_or_one_eq_iff]

/-! ## Consecutive counts -/

theorem toNat_add_add_ofNat (v w : Word) (n : Nat) :
    (v + (w + .ofNat n)).toNat = (v.toNat + w.toNat + n) % 4294967296 := by
  rw [UInt32.toNat_add, UInt32.toNat_add, UInt32.toNat_ofNat']
  omega

/-- The engines of the counts reached from `count` by `i` and by `j` uses. -/
theorem ofSeed_value_add_eq_iff {a b count : Word} {i j : Nat} :
    ofSeed (Mixer.value a b (count + .ofNat i)) = ofSeed (Mixer.value a b (count + .ofNat j)) ↔
      (a.base257.toNat + count.toNat + i) % 4294967296 / 2 =
        (a.base257.toNat + count.toNat + j) % 4294967296 / 2 := by
  rw [ofSeed_value_eq_iff, Word.or_one_eq_iff, toNat_add_add_ofNat, toNat_add_add_ofNat]

/-- Of `2 ^ 32` consecutive numbers, the sum of `a` and exactly one other has the same half as the
    sum of `a` and `i`. -/
theorem existsUnique_half_eq (a : Nat) {k i : Nat} (hlo : k ≤ i) (hhi : i < k + 4294967296) :
    ∃! j, (k ≤ j ∧ j < k + 4294967296) ∧ j ≠ i ∧
      (a + j) % 4294967296 / 2 = (a + i) % 4294967296 / 2 := by
  -- The other number is the next one if the sum is even, and else the last one, counted around.
  have hother : ∃ d, (i - k + d) % 4294967296 ≠ i - k ∧
      (a + (i + d)) % 4294967296 / 2 = (a + i) % 4294967296 / 2 := by
    rcases Nat.mod_two_eq_zero_or_one (a + i) with heven | hodd
    · exact ⟨1, by omega, by omega⟩
    · exact ⟨4294967295, by omega, by omega⟩
  obtain ⟨d, hne, hhalf⟩ := hother
  refine ⟨k + (i - k + d) % 4294967296, ⟨by omega, by omega, by omega⟩, ?_⟩
  rintro j ⟨hrange, hji, hj⟩
  omega

/-- Seedings from one reading are told apart by their counts, up to the lowest bit of the sum that
    the count is part of. So of the engines seeded at `2 ^ 32` consecutive counts each is equal to
    one other, while their seeds are all different. Nothing else that the mixer is used for
    matters, except that it is counted. -/
theorem clock_seedings_coincide_iff (reading : Reading) (mixer : Mixer) :
    ∃ (seeds : Nat → Word) (engines : Nat → Engine),
      (∀ before : List (Word × Word),
        (do
          let _ ← Mixer.mixAll before
          Mixer.seed reading).run mixer =
        (seeds before.length, mixer.advance (before.length + 1))) ∧
      (∀ (before between : List (Word × Word)) (engine engine' : Engine),
        (do
          let _ ← Mixer.mixAll before
          let first ← engine.reseedByClock reading
          let _ ← Mixer.mixAll between
          let second ← engine'.reseedByClock reading
          return (first, second)).run mixer =
        ((engines before.length, engines (before.length + 1 + between.length)),
          mixer.advance (before.length + 1 + between.length + 1))) ∧
      (∀ i j, engines i = engines j ↔ ∀ b, 0 < b →
        (reading.seconds.base257 + (mixer.count + .ofNat i)).toNat.testBit b =
          (reading.seconds.base257 + (mixer.count + .ofNat j)).toNat.testBit b) ∧
      (∀ k i, k ≤ i → i < k + UInt32.size →
        ∃! j, (k ≤ j ∧ j < k + UInt32.size) ∧ j ≠ i ∧ engines j = engines i) ∧
      (∀ i j, i + 2 ≤ j → j ≤ i + (UInt32.size - 2) → engines i ≠ engines j) ∧
      ∀ i j, i < j → j < i + UInt32.size → seeds i ≠ seeds j := by
  have hsize : UInt32.size = 4294967296 := rfl
  refine ⟨fun n => Mixer.value reading.seconds reading.ticks (mixer.count + .ofNat n),
    fun n => ofSeed (Mixer.value reading.seconds reading.ticks (mixer.count + .ofNat n)),
    fun before => ?_, fun before between engine engine' => ?_, fun i j => ?_,
    fun k i hlo hhi => ?_, fun i j hlo hhi => ?_, fun i j hlo hhi => ?_⟩
  · rw [Mixer.mixAll_bind_run, Mixer.seed_run, Mixer.advance_advance, Mixer.count_advance]
  · rw [Mixer.mixAll_bind_run, reseedByClock_bind_run, Mixer.advance_advance,
      Mixer.mixAll_bind_run, Mixer.advance_advance, reseedByClock_bind_run, Mixer.advance_advance]
    rfl
  · rw [ofSeed_value_eq_iff, Word.or_one_eq_iff_testBit]
  · simp only [ofSeed_value_add_eq_iff]
    exact existsUnique_half_eq _ hlo hhi
  · rw [Ne, ofSeed_value_add_eq_iff]
    omega
  · intro h
    have hcount := congrArg UInt32.toNat
      ((UInt32.add_right_inj _).1 (Mixer.value_injective _ _ h))
    rw [UInt32.toNat_ofNat', UInt32.toNat_ofNat'] at hcount
    omega

/-- The count of the mixer comes round after the first of three uses. -/
theorem clock_seedings_coincide_iff_wrapped :
    ∃ (seeds : Nat → Word) (engines : Nat → Engine),
      (do
        let _ ← Mixer.mixAll []
        let first ← blank.reseedByClock ⟨0, 0⟩
        let _ ← Mixer.mixAll [(1, 2)]
        let second ← blank.reseedByClock ⟨0, 0⟩
        return (first, second)).run ⟨0xffffffff⟩ = ((engines 0, engines 2), ⟨2⟩) ∧
      (0 + 2 ≤ 2 ∧ 2 ≤ 0 + (UInt32.size - 2) ∧ engines 0 ≠ engines 2) ∧
      (0 ≤ 1 ∧ 1 < 0 + UInt32.size ∧
        ∃! j, (0 ≤ j ∧ j < 0 + UInt32.size) ∧ j ≠ 1 ∧ engines j = engines 1) ∧
      0 < 1 ∧ 1 < 0 + UInt32.size ∧ seeds 0 ≠ seeds 1 := by
  obtain ⟨seeds, engines, -, hruns, -, hother, hne, hseeds⟩ :=
    clock_seedings_coincide_iff ⟨0, 0⟩ ⟨0xffffffff⟩
  exact ⟨seeds, engines, hruns [] [(1, 2)] blank blank,
    ⟨by decide, by decide, hne 0 2 (by decide) (by decide)⟩,
    ⟨by decide, by decide, hother 0 1 (by decide) (by decide)⟩,
    by decide, by decide, hseeds 0 1 (by decide) (by decide)⟩

end Twister.Engine
