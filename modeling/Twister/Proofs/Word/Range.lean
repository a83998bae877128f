import Twister.Draw.Source
import Mathlib.Algebra.Order.Floor.Div
import Mathlib.Data.Set.Card

/-!
# Which words give which integers

Scaling a word by a number of values is monotone, so that the words that give one of the values are
those from some least word (`Word.leastFor`) up to the least word for the next value. Their number
is that of all words divided by the number of values, rounded down or up. So every value is given,
and no value more often than another by more than one word.

A signed range is counted from its lower end, around from the greatest integer to the least if
need be (`Word.distance`). Seen so, an integer is given by a word if and only if it is less far from
the lower end than the upper end is. This holds for a reversed range too, which is the way around
from `min` to `max` through the greatest integer.

* `scale_eq_iff`, `ncard_scale_eq_or`: the words that give a value, and how many they are;
* `between_eq_iff`, `exists_between_eq_iff`: the words that give an integer, and if there are any;
* `toInt_between_of_lt`: the integer given, without wrapping.
-/

namespace Twister.Word

/-! ## Quotients rounded up -/

theorem add_div_le_ceilDiv {d : Nat} (h : 0 < d) (a b : Nat) :
    a ⌈/⌉ d + b / d ≤ (a + b) ⌈/⌉ d := by
  have hsum := (ceilDiv_le_iff_le_mul h).1 (Nat.le_refl ((a + b) ⌈/⌉ d))
  have hfloor := Nat.mul_div_le b d
  have hle : b / d ≤ (a + b) ⌈/⌉ d := Nat.le_of_mul_le_mul_left (by omega) h
  obtain ⟨m, hm⟩ := Nat.exists_eq_add_of_le hle
  rw [hm, Nat.mul_add] at hsum
  have hceil : a ⌈/⌉ d ≤ m := (ceilDiv_le_iff_le_mul h).2 (by omega)
  omega

theorem ceilDiv_le_add_div {d : Nat} (h : 0 < d) (a b : Nat) :
    (a + b) ⌈/⌉ d ≤ a ⌈/⌉ d + (b / d + 1) := by
  have hceil := (ceilDiv_le_iff_le_mul h).1 (Nat.le_refl (a ⌈/⌉ d))
  have hfloor := Nat.lt_mul_div_succ b h
  rw [ceilDiv_le_iff_le_mul h, Nat.mul_add]
  exact Nat.add_le_add hceil (Nat.le_of_lt hfloor)

/-- The quotients of `a` and `a + b`, both rounded up, differ by that of `b`, rounded down or up. -/
theorem ceilDiv_sub_ceilDiv {d : Nat} (h : 0 < d) (a b : Nat) :
    (a + b) ⌈/⌉ d - a ⌈/⌉ d = b / d ∨ (a + b) ⌈/⌉ d - a ⌈/⌉ d = b / d + 1 := by
  have hlower := add_div_le_ceilDiv h a b
  have hupper := ceilDiv_le_add_div h a b
  generalize b / d = quotient at hlower hupper ⊢
  omega

/-! ## Scaling -/

variable {values v v' w : Word}

/-- The least number of a word whose part of `values` is not below `n`. -/
def leastFor (values : Word) (n : Nat) : Nat := n * UInt32.size ⌈/⌉ values.toNat

theorem toNat_scale_lt (h : 0 < values.toNat) (w : Word) :
    (scale values w).toNat < values.toNat := by
  rw [toNat_scale]
  refine Nat.div_lt_of_lt_mul ?_
  rw [Nat.mul_comm]
  exact Nat.mul_lt_mul_of_pos_right w.toNat_lt_size h

theorem toNat_scale_mono (values : Word) {w w' : Word} (h : w ≤ w') :
    (scale values w).toNat ≤ (scale values w').toNat := by
  rw [toNat_scale, toNat_scale]
  exact Nat.div_le_div_right (Nat.mul_le_mul_left _ (UInt32.le_iff_toNat_le.1 h))

theorem le_toNat_scale_iff (h : 0 < values.toNat) {n : Nat} :
    n ≤ (scale values w).toNat ↔ leastFor values n ≤ w.toNat := by
  rw [toNat_scale, Nat.le_div_iff_mul_le (by decide), leastFor, ceilDiv_le_iff_le_mul h]

/-- A value is given from its least word up to the least word for the next value. -/
theorem scale_eq_iff (h : 0 < values.toNat) :
    scale values w = v ↔
      leastFor values v.toNat ≤ w.toNat ∧ w.toNat < leastFor values (v.toNat + 1) := by
  rw [← UInt32.toNat_inj, ← le_toNat_scale_iff h, ← Nat.not_le, ← le_toNat_scale_iff h]
  omega

theorem leastFor_le_size (h : 0 < values.toNat) {n : Nat} (hn : n ≤ values.toNat) :
    leastFor values n ≤ UInt32.size :=
  (ceilDiv_le_iff_le_mul h).2 (Nat.mul_le_mul_right _ hn)

theorem ncard_scale_eq (h : v < values) :
    {w | scale values w = v}.ncard = leastFor values (v.toNat + 1) - leastFor values v.toNat := by
  have hlt : v.toNat + 1 ≤ values.toNat := UInt32.lt_iff_toNat_lt.1 h
  have hpos : 0 < values.toNat := Nat.zero_lt_of_lt hlt
  have hsize := leastFor_le_size hpos hlt
  have hword {i : Nat} (hi : i < leastFor values (v.toNat + 1) - leastFor values v.toNat) :
      (UInt32.ofNat (leastFor values v.toNat + i)).toNat = leastFor values v.toNat + i :=
    UInt32.toNat_ofNat_of_lt' (by omega)
  -- The words are numbered from the least one on.
  refine Set.ncard_eq_of_bijective (fun i _ => .ofNat (leastFor values v.toNat + i)) ?_ ?_ ?_
  · intro w hw
    obtain ⟨hlo, hhi⟩ := (scale_eq_iff hpos).1 hw
    refine ⟨w.toNat - leastFor values v.toNat, by omega, ?_⟩
    rw [Nat.add_sub_cancel' hlo, UInt32.ofNat_toNat]
  · intro i hi
    refine (scale_eq_iff hpos).2 ?_
    rw [hword hi]
    omega
  · intro i j hi hj heq
    have hnat := congrArg UInt32.toNat heq
    rw [hword hi, hword hj] at hnat
    omega

/-- All values have about the same number of words. -/
theorem ncard_scale_eq_or (h : v < values) :
    {w | scale values w = v}.ncard = UInt32.size / values.toNat ∨
      {w | scale values w = v}.ncard = UInt32.size / values.toNat + 1 := by
  have hpos : 0 < values.toNat := Nat.zero_lt_of_lt (UInt32.lt_iff_toNat_lt.1 h)
  rw [ncard_scale_eq h, leastFor, leastFor, Nat.add_mul, Nat.one_mul]
  exact ceilDiv_sub_ceilDiv hpos _ _

theorem ncard_scale_eq_le (h : v < values) (h' : v' < values) :
    {w | scale values w = v}.ncard ≤ {w | scale values w = v'}.ncard + 1 := by
  have hupper : {w | scale values w = v}.ncard ≤ UInt32.size / values.toNat + 1 := by
    rcases ncard_scale_eq_or h with hcard | hcard
    · exact hcard ▸ Nat.le_succ _
    · exact Nat.le_of_eq hcard
  have hlower : UInt32.size / values.toNat ≤ {w | scale values w = v'}.ncard := by
    rcases ncard_scale_eq_or h' with hcard | hcard
    · exact Nat.le_of_eq hcard.symm
    · exact hcard ▸ Nat.le_succ _
  exact hupper.trans (Nat.succ_le_succ hlower)

/-- There are more words than values, so that no value is left out. -/
theorem exists_scale_eq_iff (h : 0 < values.toNat) : (∃ w, scale values w = v) ↔ v < values := by
  constructor
  · rintro ⟨w, rfl⟩
    exact UInt32.lt_iff_toNat_lt.2 (toNat_scale_lt h w)
  · intro hv
    have hsome : 0 < UInt32.size / values.toNat :=
      Nat.div_pos (Nat.le_of_lt values.toNat_lt_size) h
    apply Set.nonempty_of_ncard_ne_zero
    rcases ncard_scale_eq_or hv with hcard | hcard
    · exact hcard ▸ Nat.ne_of_gt hsome
    · exact hcard ▸ Nat.succ_ne_zero _

/-! ## Distances -/

variable {min max r : Int32}

/-- The distance from `min` up to `r`, counted around from the greatest integer to the least. -/
def distance (min r : Int32) : Word := (r - min).toUInt32

theorem toInt_eq_ite (i : Int32) :
    i.toInt = if 2 * i.toUInt32.toNat < 4294967296 then (i.toUInt32.toNat : Int)
      else i.toUInt32.toNat - 4294967296 :=
  BitVec.toInt_eq_toNat_cond i.toBitVec

theorem toInt_bounds (i : Int32) : -2147483648 ≤ i.toInt ∧ i.toInt < 2147483648 :=
  ⟨i.le_toInt, i.toInt_lt⟩

theorem toNat_distance (min r : Int32) :
    ((distance min r).toNat : Int) = (r.toInt - min.toInt) % 4294967296 := by
  have hmin := min.toUInt32.toNat_lt
  have hr := r.toUInt32.toNat_lt
  rw [distance, Int32.toUInt32_sub, UInt32.toNat_sub, toInt_eq_ite r, toInt_eq_ite min]
  split <;> split <;> omega

theorem toNat_distance_pos (h : min ≠ max) : 0 < (distance min max).toNat := by
  have hdistance := toNat_distance min max
  have hmin := toInt_bounds min
  have hmax := toInt_bounds max
  rw [Ne, ← Int32.toInt_inj] at h
  omega

/-- A range contains what is less far from its lower end than the upper end is. If it is reversed,
    the way up leads through the greatest and the least integer. -/
theorem distance_lt_iff (min max r : Int32) :
    distance min r < distance min max ↔
      if min ≤ max then min ≤ r ∧ r < max else min ≤ r ∨ r < max := by
  have hr := toNat_distance min r
  have hmax := toNat_distance min max
  have hbounds := toInt_bounds min
  have hbounds' := toInt_bounds max
  have hbounds'' := toInt_bounds r
  simp only [UInt32.lt_iff_toNat_lt, Int32.le_iff_toInt_le, Int32.lt_iff_toInt_lt]
  split <;> omega

/-! ## Signed ranges -/

theorem between_eq_iff :
    between min max w = r ↔ scale (distance min max) w = distance min r := by
  constructor
  · rintro rfl
    rw [between, distance, distance, Int32.add_comm, Int32.add_sub_cancel, UInt32.toUInt32_toInt32]
  · intro h
    rw [distance] at h
    rw [between, h, distance, Int32.toInt32_toUInt32, Int32.add_comm, Int32.sub_add_cancel]

theorem exists_between_eq_iff (h : min ≠ max) :
    (∃ w, between min max w = r) ↔ distance min r < distance min max := by
  simp only [between_eq_iff]
  exact exists_scale_eq_iff (toNat_distance_pos h)

theorem between_self (min : Int32) (w : Word) : between min min w = min := by
  rw [between_eq_iff, distance, Int32.sub_self, ← UInt32.toNat_inj, toNat_scale]
  change 0 * w.toNat / UInt32.size = 0
  rw [Nat.zero_mul, Nat.zero_div]

/-- Neither the width nor the sum wraps, as the integer given is one of the range. -/
theorem toInt_between_of_lt (h : min < max) (w : Word) :
    (between min max w).toInt =
      min.toInt + (max.toInt - min.toInt) * w.toNat / 4294967296 := by
  have hne : min ≠ max := Int32.ne_of_lt h
  have hrange := (exists_between_eq_iff hne).1 ⟨w, rfl⟩
  have hpart : scale (distance min max) w = distance min (between min max w) :=
    between_eq_iff.1 rfl
  have hscale := congrArg (fun v => (v.toNat : Int)) hpart
  have hmin := toInt_bounds min
  have hmax := toInt_bounds max
  rw [distance_lt_iff, if_pos (Int32.le_of_lt h), Int32.le_iff_toInt_le,
    Int32.lt_iff_toInt_lt] at hrange
  rw [Int32.lt_iff_toInt_lt] at h
  simp only [toNat_scale, toNat_distance, Int.natCast_ediv, Int.natCast_mul] at hscale
  -- Both distances are below the number of words, as neither way leads around.
  rw [Int.emod_eq_of_lt (by omega) (by omega), Int.emod_eq_of_lt (by omega) (by omega)] at hscale
  change _ / 4294967296 = _ at hscale
  omega

end Twister.Word
