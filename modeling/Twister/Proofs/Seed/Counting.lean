import Twister.Draw.Source
import Twister.Seed.Basic
import Mathlib.Data.Nat.Digits.Defs
import Mathlib.Data.Nat.ModEq

/-!
# Counted uses of a mixer

A mixer counts its uses and takes no other account of them: after any number of uses its state is
given by their number (`Mixer.mixAll_run`). From one reading it makes a different word at every
count. How far these words differ is another question. The count is added, so that it may change
any bit, while the value of the ticks only changes the same bits of all of them; two of the words
agree in all but the lowest bit exactly if the sums do.

* `or_one_eq_iff`, `or_one_eq_iff_testBit`: words that agree in all but the lowest bit;
* `mixAll_run`, `mixAll_bind_run`: any number of uses, and what comes after them;
* `value_injective`, `value_or_one_eq_iff`: the words made of one reading at different counts.
-/

namespace Twister

namespace Word

variable {u v w : Word}

/-- With their lowest bit set, two words are equal if their halves are. -/
theorem or_one_eq_iff : v ||| 1 = w ||| 1 ↔ v.toNat / 2 = w.toNat / 2 := by
  have hhalf (n : Nat) : (n ||| 1) / 2 = n / 2 := by rw [Nat.or_div_two, Nat.or_zero]
  rw [← UInt32.toNat_inj, UInt32.toNat_or, UInt32.toNat_or]
  change v.toNat ||| 1 = w.toNat ||| 1 ↔ _
  constructor
  · intro h
    rw [← hhalf, h, hhalf]
  · intro h
    have hodd (n : Nat) : (n ||| 1) % 2 = 1 := Nat.or_mod_two_eq_one.2 (.inr rfl)
    rw [← Nat.div_add_mod (v.toNat ||| 1) 2, ← Nat.div_add_mod (w.toNat ||| 1) 2, hhalf, hhalf, h,
      hodd, hodd]

/-- With their lowest bit set, two words are equal if all other bits are. -/
theorem or_one_eq_iff_testBit :
    v ||| 1 = w ||| 1 ↔ ∀ b, 0 < b → v.toNat.testBit b = w.toNat.testBit b := by
  rw [or_one_eq_iff]
  constructor
  · intro h b hb
    obtain ⟨b, rfl⟩ := Nat.exists_eq_succ_of_ne_zero (Nat.ne_of_gt hb)
    rw [Nat.testBit_succ, h, Nat.testBit_succ]
  · intro h
    refine Nat.eq_of_testBit_eq fun b => ?_
    rw [Nat.testBit_div_two, Nat.testBit_div_two]
    exact h (b + 1) (Nat.succ_pos b)

theorem xor_or_one_eq_iff : (u ^^^ v) ||| 1 = (u ^^^ w) ||| 1 ↔ v ||| 1 = w ||| 1 := by
  rw [or_one_eq_iff_testBit, or_one_eq_iff_testBit]
  simp only [UInt32.toNat_xor, Nat.testBit_xor, Bool.xor_right_inj]

/-! ## Digits to base 257 -/

/-- The number of which the bytes of a word are the digits to base 257, if the least significant
    byte is the digit that counts most. -/
def digitValue (w : Word) : Nat :=
  ((w.toNat % 256 * 257 + w.toNat / 256 % 256) * 257 + w.toNat / 65536 % 256) * 257 +
    w.toNat / 16777216

theorem digitValue_eq_ofDigits (w : Word) :
    w.digitValue = Nat.ofDigits 257 (w.bytes.toList.map UInt8.toNat).reverse := by
  have hw := w.toNat_lt
  rw [digitValue, map_toNat_bytes]
  simp only [List.reverse_cons, List.reverse_nil, List.nil_append, List.cons_append,
    Nat.ofDigits_cons, Nat.ofDigits_nil]
  omega

/-- Taking more digits to a value makes it the first of them all. -/
theorem toNat_foldl_digits (bytes : List UInt8) (value : Word) :
    (bytes.foldl (fun value b => value * 257 + b.toUInt32) value).toNat =
      Nat.ofDigits 257 ((bytes.map UInt8.toNat).reverse ++ [value.toNat]) % UInt32.size := by
  induction bytes generalizing value with
  | nil => exact (Nat.mod_eq_of_lt value.toNat_lt).symm
  | cons b bytes ih =>
    have hvalue : (value * 257 + b.toUInt32).toNat ≡
        Nat.ofDigits 257 [b.toNat, value.toNat] [MOD UInt32.size] := by
      rw [Nat.ofDigits_cons, Nat.ofDigits_singleton, UInt32.toNat_add, UInt32.toNat_mul,
        UInt8.toNat_toUInt32, Nat.ModEq]
      change ((value.toNat * 257 % UInt32.size + b.toNat) % UInt32.size) % UInt32.size = _
      rw [Nat.mod_mod, Nat.mod_add_mod, Nat.add_comm, Nat.mul_comm]
    rw [List.foldl_cons, ih, List.map_cons, List.reverse_cons, List.append_assoc,
      List.singleton_append, Nat.ofDigits_append, Nat.ofDigits_append, Nat.ofDigits_singleton]
    exact (hvalue.mul_left _).add_left _

theorem toNat_base257 (w : Word) : w.base257.toNat = w.digitValue % UInt32.size := by
  rw [base257, toNat_foldl_digits, Nat.ofDigits_append, digitValue_eq_ofDigits]
  rfl

example : digitValue 0x04030201 = ((1 * 257 + 2) * 257 + 3) * 257 + 4 := by decide

end Word

namespace Mixer

/-- Mixing pairs of words one after the other. -/
def mixAll (pairs : List (Word × Word)) : StateM Mixer (List Word) :=
  pairs.mapM fun pair => mix pair.1 pair.2

theorem mixAll_run (pairs : List (Word × Word)) (mixer : Mixer) :
    ∃ ws, (mixAll pairs).run mixer = (ws, mixer.advance pairs.length) := by
  induction pairs generalizing mixer with
  | nil => exact ⟨[], by rw [List.length_nil, advance_zero]; rfl⟩
  | cons pair pairs ih =>
    obtain ⟨ws, h⟩ := ih (mixer.advance 1)
    rw [advance_advance, Nat.add_comm] at h
    exact ⟨_, run_mapM_cons (mix_run pair.1 pair.2 mixer) h⟩

/-- Of what was mixed before, only the number of uses matters. -/
theorem mixAll_bind_run {α : Type} (pairs : List (Word × Word)) (use : StateM Mixer α)
    (mixer : Mixer) :
    (mixAll pairs >>= fun _ => use).run mixer = use.run (mixer.advance pairs.length) := by
  obtain ⟨ws, h⟩ := mixAll_run pairs mixer
  exact run_bind_of_run h _

/-- What two words are mixed to after a number of uses, which may be more than a word can count. -/
theorem toNat_value (a b : Word) {count : Word} {n : Nat} (h : count.toNat = n % UInt32.size) :
    (value a b count).toNat =
      b.digitValue % UInt32.size ^^^ (a.digitValue + n) % UInt32.size := by
  rw [value, UInt32.toNat_xor, UInt32.toNat_add, Word.toNat_base257, Word.toNat_base257, h]
  change _ ^^^ (_ % UInt32.size + _ % UInt32.size) % UInt32.size = _
  rw [← Nat.add_mod]

theorem value_injective (a b : Word) : Function.Injective (value a b) := by
  intro count count' h
  exact (UInt32.add_right_inj _).1 ((UInt32.xor_right_inj _).1 h)

theorem value_or_one_eq_iff {a b count count' : Word} :
    value a b count ||| 1 = value a b count' ||| 1 ↔
      (a.base257 + count) ||| 1 = (a.base257 + count') ||| 1 :=
  Word.xor_or_one_eq_iff

end Mixer

end Twister
