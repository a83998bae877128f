import Twister.Proofs.Seed.Counting

/-!
# Words that a mixer confuses

The value of four bytes as digits to base 257 tells the bytes, but it may exceed `2 ^ 32`, and then
it wraps. It does not exceed `2 ^ 33`, so that words of the same wrapped value have values that are
equal or `2 ^ 32` apart. The differences of their bytes are signed digits to base 257 of `0` or of
`± 2 ^ 32`. For `0` there is one way to write it with such digits, and for `2 ^ 32` there are four
(`Word.collisions`).

Mixing adds the count to the one value and sums it with the other by bits, both of which can be
undone. So a mixer confuses two words in one place exactly if these have the same value, whatever
the other word and the count are.

* `digits_eq_zero`, `digits_mem_collisions`: the signed digits of `0` and of `2 ^ 32`;
* `base257_eq_iff`: the words of the same value;
* `words_confused_iff`: the words that a mixer confuses.
-/

namespace Twister

namespace Word

/-! ## Signed digits to base 257 -/

/-- The number with the given digits to base 257, the most significant first. -/
def signedValue (ds : List Int) : Int :=
  ds.foldl (fun value d => value * 257 + d) 0

theorem signedValue_map_neg (ds : List Int) : signedValue (ds.map (- ·)) = -signedValue ds := by
  have hfold (value : Int) : (ds.map (- ·)).foldl (fun value d => value * 257 + d) (-value) =
      -ds.foldl (fun value d => value * 257 + d) value := by
    induction ds generalizing value with
    | nil => rfl
    | cons d ds ih =>
      have hstep : -value * 257 + -d = -(value * 257 + d) := by omega
      rw [List.map_cons, List.foldl_cons, List.foldl_cons, hstep, ih]
  exact hfold 0

/-- The difference of two bytes. -/
def IsDifference (d : Int) : Prop := -255 ≤ d ∧ d ≤ 255

theorem IsDifference.neg {d : Int} (h : IsDifference d) : IsDifference (-d) :=
  ⟨Int.neg_le_neg h.2, Int.neg_le_of_neg_le h.1⟩

variable {d₀ d₁ d₂ d₃ : Int}

theorem digits_eq_zero (h₁ : IsDifference d₁) (h₂ : IsDifference d₂) (h₃ : IsDifference d₃)
    (h : signedValue [d₀, d₁, d₂, d₃] = 0) : [d₀, d₁, d₂, d₃] = [0, 0, 0, 0] := by
  simp only [signedValue, List.foldl_cons, List.foldl_nil] at h
  simp only [IsDifference] at h₁ h₂ h₃
  have hlast : d₃ = 0 := by omega
  have hthird : d₂ = 0 := by omega
  have hsecond : d₁ = 0 := by omega
  have hfirst : d₀ = 0 := by omega
  rw [hfirst, hsecond, hthird, hlast]

/-- The differences of bytes that are the digits of `2 ^ 32` to base 257, those of the least
    significant bytes first. -/
def collisions : List (List Int) :=
  [[253, 5, 253, 1], [254, -252, 253, 1], [253, 6, -4, 1], [254, -251, -4, 1]]

/-- From the last digit on, each leaves one or two to choose from for the next. -/
theorem digits_mem_collisions (h₀ : IsDifference d₀) (h₁ : IsDifference d₁) (h₂ : IsDifference d₂)
    (h₃ : IsDifference d₃) (h : signedValue [d₀, d₁, d₂, d₃] = 4294967296) :
    [d₀, d₁, d₂, d₃] ∈ collisions := by
  simp only [signedValue, List.foldl_cons, List.foldl_nil] at h
  simp only [IsDifference] at h₀ h₁ h₂ h₃
  have hlast : d₃ = 1 := by omega
  have hthird : d₂ = 253 ∨ d₂ = -4 := by omega
  rcases hthird with rfl | rfl
  · have hsecond : d₁ = 5 ∧ d₀ = 253 ∨ d₁ = -252 ∧ d₀ = 254 := by omega
    rcases hsecond with ⟨rfl, rfl⟩ | ⟨rfl, rfl⟩ <;> simp [collisions, hlast]
  · have hsecond : d₁ = 6 ∧ d₀ = 253 ∨ d₁ = -251 ∧ d₀ = 254 := by omega
    rcases hsecond with ⟨rfl, rfl⟩ | ⟨rfl, rfl⟩ <;> simp [collisions, hlast]

theorem signedValue_of_mem_collisions {ds : List Int} (h : ds ∈ collisions) :
    signedValue ds = 4294967296 := by
  revert ds
  decide

/-! ## Words of the same value -/

variable {u v : Word}

/-- The differences of the bytes of two words, the least significant first. -/
def byteDifferences (u v : Word) : List Int :=
  List.zipWith (fun b b' : UInt8 => (b.toNat : Int) - b'.toNat) u.bytes.toList v.bytes.toList

/-- Two words have bytes that differ by the digits of `2 ^ 32`, in one order or the other. -/
def Collide (u v : Word) : Prop :=
  byteDifferences u v ∈ collisions ∨ (byteDifferences u v).map (- ·) ∈ collisions

instance : Decidable (Collide u v) := inferInstanceAs (Decidable (_ ∨ _))

theorem eq_of_bytes_eq (h : u.bytes = v.bytes) : u = v := by
  rw [← ofBytes_bytes u, h, ofBytes_bytes]

theorem signedValue_byteDifferences (u v : Word) :
    signedValue (byteDifferences u v) = (u.digitValue : Int) - v.digitValue := by
  rw [digitValue_eq_ofDigits, digitValue_eq_ofDigits]
  simp only [signedValue, byteDifferences, toList_bytes, List.zipWith_cons_cons,
    List.zipWith_nil_left, List.foldl_cons, List.foldl_nil, List.map_cons, List.map_nil,
    List.reverse_cons, List.reverse_nil, List.nil_append, List.cons_append, Nat.ofDigits_cons,
    Nat.ofDigits_nil]
  omega

/-- The digits fit a word but for a little, so that their value wraps at most once. -/
theorem digitValue_lt (w : Word) : w.digitValue < 8589934592 := by
  have hw := w.toNat_lt
  rw [digitValue]
  omega

theorem exists_byteDifferences (u v : Word) :
    ∃ d₀ d₁ d₂ d₃, byteDifferences u v = [d₀, d₁, d₂, d₃] ∧
      IsDifference d₀ ∧ IsDifference d₁ ∧ IsDifference d₂ ∧ IsDifference d₃ := by
  have hbytes (b b' : UInt8) : IsDifference ((b.toNat : Int) - b'.toNat) := by
    have hb := b.toNat_lt
    have hb' := b'.toNat_lt
    exact ⟨by omega, by omega⟩
  exact ⟨_, _, _, _, rfl, hbytes _ _, hbytes _ _, hbytes _ _, hbytes _ _⟩

theorem eq_of_signedValue_eq_zero (h : signedValue (byteDifferences u v) = 0) : u = v := by
  obtain ⟨d₀, d₁, d₂, d₃, hds, -, h₁, h₂, h₃⟩ := exists_byteDifferences u v
  rw [hds] at h
  rw [digits_eq_zero h₁ h₂ h₃ h] at hds
  simp only [byteDifferences, toList_bytes, List.zipWith_cons_cons, List.zipWith_nil_left,
    List.cons.injEq, Int.sub_eq_zero, Int.natCast_inj, UInt8.toNat_inj, and_true] at hds
  obtain ⟨hb₀, hb₁, hb₂, hb₃⟩ := hds
  refine eq_of_bytes_eq ?_
  exact Vector.toList_inj.1 (by rw [toList_bytes, hb₀, hb₁, hb₂, hb₃, toList_bytes])

theorem base257_eq_iff : u.base257 = v.base257 ↔ u = v ∨ Collide u v := by
  have hsize : UInt32.size = 4294967296 := rfl
  have hdifference := signedValue_byteDifferences u v
  have hu := digitValue_lt u
  have hv := digitValue_lt v
  rw [← UInt32.toNat_inj, toNat_base257, toNat_base257, hsize]
  constructor
  · intro h
    obtain ⟨d₀, d₁, d₂, d₃, hds, h₀, h₁, h₂, h₃⟩ := exists_byteDifferences u v
    obtain hzero | hplus | hminus : signedValue (byteDifferences u v) = 0 ∨
        signedValue (byteDifferences u v) = 4294967296 ∨
        -signedValue (byteDifferences u v) = 4294967296 := by omega
    · exact .inl (eq_of_signedValue_eq_zero hzero)
    · rw [hds] at hplus
      rw [Collide, hds]
      exact .inr (.inl (digits_mem_collisions h₀ h₁ h₂ h₃ hplus))
    · rw [← signedValue_map_neg, hds] at hminus
      rw [Collide, hds]
      exact .inr (.inr (digits_mem_collisions h₀.neg h₁.neg h₂.neg h₃.neg hminus))
  · rintro (rfl | hcollide | hcollide)
    · rfl
    · have hvalue := signedValue_of_mem_collisions hcollide
      omega
    · have hvalue := signedValue_of_mem_collisions hcollide
      rw [signedValue_map_neg] at hvalue
      omega

theorem le_headD_of_mem_collisions {ds : List Int} (h : ds ∈ collisions) : 253 ≤ ds.headD 0 := by
  revert ds
  decide

/-- The least significant bytes of words that collide differ by almost as much as they can. -/
theorem not_collide_of_le (hu : u.toNat % 256 ≤ 252) (hv : v.toNat % 256 ≤ 252) :
    ¬Collide u v := by
  have hfirst : (byteDifferences u v).headD 0 =
      ((u.toNat % 256 : Nat) : Int) - (v.toNat % 256 : Nat) := rfl
  rintro (hcollide | hcollide)
  · have hle := le_headD_of_mem_collisions hcollide
    omega
  · have hle := le_headD_of_mem_collisions hcollide
    have hneg : ((byteDifferences u v).map (- ·)).headD 0 = -(byteDifferences u v).headD 0 := rfl
    omega

end Word

namespace Mixer

open Word (Collide)

variable {a a' b b' count : Word}

theorem value_eq_iff_of_left : value a b count = value a' b count ↔ a = a' ∨ Collide a a' := by
  rw [value, value, UInt32.xor_right_inj, UInt32.add_left_inj, Word.base257_eq_iff]

theorem value_eq_iff_of_right : value a b count = value a b' count ↔ b = b' ∨ Collide b b' := by
  rw [value, value, UInt32.xor_left_inj, Word.base257_eq_iff]

/-- Two words have the same value only if the differences of their bytes are the digits of
    `± 2 ^ 32`, and just then a mixer confuses them, in either place, whatever it has counted and
    whatever the other word is. It does so with no words of which the least significant bytes are
    at most `252`. -/
theorem words_confused_iff :
    (∀ u v : Word, u.base257 = v.base257 ↔ u = v ∨ Collide u v) ∧
    (∀ (mixer : Mixer) (a a' b : Word),
      ((mix a b).run mixer).1 = ((mix a' b).run mixer).1 ↔ a = a' ∨ Collide a a') ∧
    (∀ (mixer : Mixer) (a b b' : Word),
      ((mix a b).run mixer).1 = ((mix a b').run mixer).1 ↔ b = b' ∨ Collide b b') ∧
    ∀ u v : Word, u ≠ v → u.toNat % 256 ≤ 252 → v.toNat % 256 ≤ 252 →
      ∀ (mixer : Mixer) (w : Word),
        ((mix u w).run mixer).1 ≠ ((mix v w).run mixer).1 ∧
        ((mix w u).run mixer).1 ≠ ((mix w v).run mixer).1 := by
  refine ⟨fun u v => Word.base257_eq_iff, fun mixer a a' b => ?_, fun mixer a b b' => ?_,
    fun u v hne hu hv mixer w => ?_⟩
  · exact value_eq_iff_of_left
  · exact value_eq_iff_of_right
  · have hsame : ¬(u = v ∨ Collide u v) := not_or.2 ⟨hne, Word.not_collide_of_le hu hv⟩
    exact ⟨fun h => hsame (value_eq_iff_of_left.1 h), fun h => hsame (value_eq_iff_of_right.1 h)⟩

/-- A mixer confuses these seconds with `0`, and tells the seconds `0` and `252` apart. -/
theorem words_confused_iff_least :
    ((mix 0x01fd05fd 7).run ⟨3⟩).1 = ((mix 0 7).run ⟨3⟩).1 ∧
    ((0 : Word) ≠ 252 ∧ (0 : Word).toNat % 256 ≤ 252 ∧ (252 : Word).toNat % 256 ≤ 252 ∧
      ((mix 0 7).run ⟨3⟩).1 ≠ ((mix 252 7).run ⟨3⟩).1) := by
  obtain ⟨-, hleft, -, happart⟩ := words_confused_iff
  have hcollide : Collide 0x01fd05fd 0 := by decide
  have hne : (0 : Word) ≠ 252 := by decide
  exact ⟨(hleft _ _ _ _).2 (.inr hcollide), hne, by decide, by decide,
    (happart 0 252 hne (by decide) (by decide) ⟨3⟩ 7).1⟩

end Mixer

end Twister
