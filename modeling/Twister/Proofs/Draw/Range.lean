import Twister.Draw.Call
import Twister.Proofs.Word.Range

/-!
# Integers drawn from a range

An integer drawn from a range is made of one word, whatever the source of this word is. So what is
known of the words that give an integer is known of the draws.

* `scaled_evenly`: every value is drawn, and all of them by about the same number of words;
* `between_exactly`: the integer drawn from a signed range, and which integers are drawn.
-/

namespace Twister.WordSource

/-- One of the first `values` natural numbers is drawn by the words from one number up to another,
    which are those of its two ends, scaled to all words and rounded up. So no number is left out,
    greater words draw greater numbers, and no number is drawn by fewer words than another by more
    than one. -/
theorem scaled_evenly {values : Word} (h : 0 < values) :
    (∀ {σ : Type} [WordSource σ] (source source' : σ) (w : Word),
      next.run source = .ok (w, source') →
        (scaled values).run source = .ok (Word.scale values w, source')) ∧
    (∀ w, Word.scale values w < values) ∧
    (∀ v, v < values →
      (∀ w, Word.scale values w = v ↔
        v.toNat * UInt32.size ⌈/⌉ values.toNat ≤ w.toNat ∧
          w.toNat < (v.toNat + 1) * UInt32.size ⌈/⌉ values.toNat) ∧
      ({w | Word.scale values w = v}.ncard = UInt32.size / values.toNat ∨
        {w | Word.scale values w = v}.ncard = UInt32.size / values.toNat + 1) ∧
      ∃ w, Word.scale values w = v) ∧
    (∀ w w', w ≤ w' → Word.scale values w ≤ Word.scale values w') ∧
    ∀ v v', v < values → v' < values →
      {w | Word.scale values w = v}.ncard ≤ {w | Word.scale values w = v'}.ncard + 1 := by
  have hpos : 0 < values.toNat := UInt32.lt_iff_toNat_lt.1 h
  exact ⟨fun source source' w hw => run_map_of_run hw _,
    fun w => UInt32.lt_iff_toNat_lt.2 (Word.toNat_scale_lt hpos w),
    fun v hv => ⟨fun w => Word.scale_eq_iff hpos, Word.ncard_scale_eq_or hv,
      (Word.exists_scale_eq_iff hpos).2 hv⟩,
    fun w w' hle => UInt32.le_iff_toNat_le.2 (Word.toNat_scale_mono values hle),
    fun v v' hv hv' => Word.ncard_scale_eq_le hv hv'⟩

/-- With one value less than there are words, the value `0` is drawn by two words at most, and the
    greatest word draws the greatest value. -/
theorem scaled_evenly_most_values :
    (0 : Word) < 0xffffffff ∧
    (∃ script : Script, next.run script = .ok (0xffffffff, { script with drawn := 1 }) ∧
      (scaled 0xffffffff).run script = .ok (0xfffffffe, { script with drawn := 1 })) ∧
    ((0 : Word) < 0xffffffff ∧ ({w | Word.scale 0xffffffff w = 0}.ncard = 1 ∨
      {w | Word.scale 0xffffffff w = 0}.ncard = 2)) ∧
    (0xfffffffe : Word) < 0xffffffff ∧ (∃ w, Word.scale 0xffffffff w = 0xfffffffe) ∧
    {w | Word.scale 0xffffffff w = 0}.ncard ≤ {w | Word.scale 0xffffffff w = 0xfffffffe}.ncard + 1 ∧
    (1 : Word) ≤ 0xffffffff ∧ Word.scale 0xffffffff 1 ≤ Word.scale 0xffffffff 0xffffffff := by
  have hpos : (0 : Word) < 0xffffffff := by decide
  obtain ⟨hdraw, -, hvalue, hmono, hcards⟩ := scaled_evenly hpos
  have hdrawn := Script.next_run_singleton 0xffffffff
  have hzero := (hvalue 0 hpos).2.1
  have hlast := (hvalue 0xfffffffe (by decide)).2.2
  exact ⟨hpos, ⟨_, hdrawn, hdraw _ _ _ hdrawn⟩, ⟨hpos, hzero⟩, by decide, hlast,
    hcards 0 0xfffffffe hpos (by decide), by decide, hmono 1 0xffffffff (by decide)⟩

/-- An integer drawn from a range is the lower end and the part of the width that the word stands
    for, rounded down, and so one of the range, each of which is drawn by some word. If the range
    is reversed, all integers are drawn but those that it would contain, were it not. -/
theorem between_exactly (min max : Int32) :
    (∀ {σ : Type} [WordSource σ] (source source' : σ) (w : Word),
      next.run source = .ok (w, source') →
        (between min max).run source = .ok (Word.between min max w, source')) ∧
    (min < max →
      (∀ w, (Word.between min max w).toInt =
        min.toInt + (max.toInt - min.toInt) * w.toNat / 4294967296) ∧
      ∀ r, (∃ w, Word.between min max w = r) ↔ min ≤ r ∧ r < max) ∧
    (min = max → ∀ w, Word.between min max w = min) ∧
    (max < min → ∀ r, (∃ w, Word.between min max w = r) ↔ min ≤ r ∨ r < max) := by
  refine ⟨fun source source' w hw => run_map_of_run hw _,
    fun h => ⟨Word.toInt_between_of_lt h, fun r => ?_⟩, ?_, fun h r => ?_⟩
  · rw [Word.exists_between_eq_iff (Int32.ne_of_lt h), Word.distance_lt_iff,
      if_pos (Int32.le_of_lt h)]
  · rintro rfl
    exact Word.between_self min
  · rw [Word.exists_between_eq_iff (Int32.ne_of_lt h).symm, Word.distance_lt_iff,
      if_neg (Int32.not_le.2 h)]

/-- The widest range, an empty one and a reversed one. -/
theorem between_exactly_widest :
    (∃ script : Script, next.run script = .ok (0xffffffff, { script with drawn := 1 }) ∧
      (between Int32.minValue Int32.maxValue).run script =
        .ok (Word.between Int32.minValue Int32.maxValue 0xffffffff, { script with drawn := 1 })) ∧
    (Int32.minValue < Int32.maxValue ∧
      (Word.between Int32.minValue Int32.maxValue 0xffffffff).toInt = 2147483646 ∧
      ∀ r, (∃ w, Word.between Int32.minValue Int32.maxValue w = r) ↔
        Int32.minValue ≤ r ∧ r < Int32.maxValue) ∧
    ((5 : Int32) = 5 ∧ Word.between 5 5 0x80000000 = 5) ∧
    (0 : Int32) < 10 ∧ ∀ r, (∃ w, Word.between 10 0 w = r) ↔ 10 ≤ r ∨ r < 0 := by
  obtain ⟨hdraw, hwide, -, -⟩ := between_exactly Int32.minValue Int32.maxValue
  obtain ⟨hvalue, hmembers⟩ := hwide (by decide)
  have hdrawn := Script.next_run_singleton 0xffffffff
  have hlast : (Word.between Int32.minValue Int32.maxValue 0xffffffff).toInt = 2147483646 :=
    (hvalue 0xffffffff).trans (by decide)
  exact ⟨⟨_, hdrawn, hdraw _ _ _ hdrawn⟩, ⟨by decide, hlast, hmembers⟩,
    ⟨rfl, (between_exactly 5 5).2.2.1 rfl 0x80000000⟩, by decide,
    (between_exactly 10 0).2.2.2 (by decide)⟩

end Twister.WordSource
