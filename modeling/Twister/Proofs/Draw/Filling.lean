import Twister.Proofs.Draw.Takes

/-!
# Buffers and streams of bytes

The words drawn from a source, one after the other, are also a stream of bytes, the least
significant byte of each word first (`streamByte`). A buffer is filled with the start of this
stream. As no part of a word is kept back, the bytes up to the end of the last word are lost
(`lostBytes`), and the next buffer starts with a new word.

If nothing is lost between buffers, they get together what one buffer of their total length gets.
This is an equation between programs, and holds even where a draw may fail.

* `fill_append`, `fill_flatten`: buffers filled one after the other, and one in their place;
* `IsRun.fill`, `IsRun.exists_fillAll`: buffers filled along an endless run of draws;
* `IsRun.next`, `IsRun.long`: the bytes of a word, and of a long word.
-/

namespace Twister

/-! ## Bytes of numbers -/

/-- Byte `j` of a number, the least significant being byte `0`. -/
def byteOf (value j : Nat) : UInt8 := .ofNat (value >>> (8 * j))

/-- The first `n` bytes of a number, the least significant first. -/
def littleEndian (n value : Nat) : List UInt8 := (List.range n).map (byteOf value)

theorem littleEndian_add (m n value : Nat) :
    littleEndian (m + n) value = littleEndian m value ++ littleEndian n (value >>> (8 * m)) := by
  have hshift (j : Nat) : byteOf value (m + j) = byteOf (value >>> (8 * m)) j := by
    rw [byteOf, Nat.mul_add, Nat.shiftRight_add, byteOf]
  rw [littleEndian, List.range_add, List.map_append, List.map_map]
  exact congrArg _ (List.map_congr_left fun j _ => hshift j)

/-- The lower half of a long word alone gives the first four bytes. -/
theorem littleEndian_four_add (low high : Nat) :
    littleEndian 4 (low + UInt32.size * high) = littleEndian 4 low := by
  have hsize : UInt32.size = 4294967296 := rfl
  refine List.map_congr_left fun j hj => ?_
  have hj : j < 4 := List.mem_range.1 hj
  rw [byteOf, byteOf, Nat.shiftRight_eq_div_pow, Nat.shiftRight_eq_div_pow, ← UInt8.toNat_inj,
    UInt8.toNat_ofNat', UInt8.toNat_ofNat', hsize]
  rcases j with _ | _ | _ | _ | j <;> omega

theorem Word.bytes_eq_littleEndian (w : Word) : w.bytes.toList = littleEndian 4 w.toNat := by
  simp [littleEndian, byteOf, List.range_succ, toList_bytes, ← UInt8.toNat_inj]

/-! ## Streams of bytes -/

/-- Byte `j` of the words `ws`, one word after the other. -/
def streamByte (ws : Nat → Word) (j : Nat) : UInt8 := byteOf (ws (j / 4)).toNat (j % 4)

/-- The number of bytes that are lost after the first `n`, up to the end of a word. -/
def lostBytes (n : Nat) : Nat := (-(n : Int) % 4).toNat

/-- The bytes of the words needed for a buffer are those that fill it and those that are lost. -/
theorem four_mul_cost_eq (n : Nat) : 4 * ((n + 3) / 4) = n + lostBytes n := by
  rw [lostBytes]
  omega

theorem streamByte_drop (ws : Nat → Word) (m j : Nat) :
    streamByte (fun n => ws (m + n)) j = streamByte ws (4 * m + j) := by
  rw [streamByte, streamByte, Nat.mul_add_div (Nat.zero_lt_succ 3), Nat.mul_add_mod]

/-- The bytes of the stream behind those that are lost after a buffer. -/
theorem streamByte_drop_cost (ws : Nat → Word) (n j : Nat) :
    streamByte (fun k => ws ((n + 3) / 4 + k)) j = streamByte ws (n + lostBytes n + j) := by
  rw [streamByte_drop, four_mul_cost_eq]

theorem map_streamByte_word (ws : Nat → Word) (n : Nat) :
    (List.range 4).map (streamByte ws ∘ (4 * n + ·)) = (ws n).bytes.toList := by
  rw [Word.bytes_eq_littleEndian]
  refine List.map_congr_left fun j hj => ?_
  have hj : j < 4 := List.mem_range.1 hj
  have hword : (4 * n + j) / 4 = n := by omega
  have hbyte : (4 * n + j) % 4 = j := by omega
  rw [Function.comp, streamByte, hword, hbyte]

/-- The bytes of the first `n` words. -/
theorem flatMap_bytes_map_range (ws : Nat → Word) (n : Nat) :
    ((List.range n).map ws).flatMap (fun w => w.bytes.toList) =
      (List.range (4 * n)).map (streamByte ws) := by
  induction n with
  | zero => rfl
  | succ n ih =>
    rw [List.range_succ, List.map_append, List.flatMap_append, ih, Nat.mul_succ, List.range_add,
      List.map_append, List.map_map, map_streamByte_word, List.map_singleton,
      List.flatMap_singleton]

namespace WordSource

variable {σ : Type} [WordSource σ] {source : σ} {ρ : Nat → σ} {ws : Nat → Word}

/-! ## Buffers in parts -/

/-- Filling buffers from left to right. -/
def fillAll (buffers : List (List UInt8)) : Drawing σ (List (List UInt8)) :=
  buffers.mapM fill

/-- Filling buffers from left to right, for callers prepared to get none. -/
def fillAll? (buffers : List (List UInt8)) : Drawing σ (List (Option (List UInt8))) :=
  buffers.mapM fill?

theorem fillAll?_eq (buffers : List (List UInt8)) :
    (fillAll? buffers : Drawing σ (List (Option (List UInt8)))) =
      List.map some <$> fillAll buffers := by
  rw [fillAll?, fillAll]
  induction buffers with
  | nil => rfl
  | cons buffer buffers ih => simp [ih, fill?]

/-- What a buffer holds before it is filled does not matter. -/
theorem fill_eq_of_length_eq {buffer buffer' : List UInt8} (h : buffer.length = buffer'.length) :
    (fill buffer : Drawing σ (List UInt8)) = fill buffer' := by
  rw [fill_eq, fill_eq, h]

/-- Where the front of a buffer ends with a word, the rest can be filled as a buffer of its own. -/
theorem fill_append {front : List UInt8} (h : 4 ∣ front.length) (back : List UInt8) :
    (fill (front ++ back) : Drawing σ (List UInt8)) = (do
      let bytes ← fill front
      let bytes' ← fill back
      return bytes ++ bytes') := by
  -- The induction is on the words that the front takes.
  induction front using fill.induct with
  | case1 => simp [fill]
  | case2 a b c d front ih =>
    have hfront : 4 ∣ front.length := by
      simp at h
      omega
    simp only [List.cons_append, fill, ih hfront, bind_assoc, pure_bind, List.append_assoc]
  | case3 short hnil hlong =>
    -- No end of a word falls on one to three bytes.
    rcases short with _ | ⟨a, _ | ⟨b, _ | ⟨c, _ | ⟨d, rest⟩⟩⟩⟩
    · exact absurd rfl hnil
    · simp at h
    · simp at h
    · simp at h
    · exact absurd rfl (hlong a b c d rest)

/-- Buffers that all end with a word, but for the last one, are filled as one. -/
theorem fill_flatten {buffers : List (List UInt8)}
    (h : ∀ buffer ∈ buffers.dropLast, 4 ∣ buffer.length) :
    (fill buffers.flatten : Drawing σ (List UInt8)) = List.flatten <$> fillAll buffers := by
  induction buffers with
  | nil => rfl
  | cons buffer buffers ih =>
    cases buffers with
    | nil => simp [fillAll]
    | cons next buffers =>
      rw [List.dropLast_cons_cons, List.forall_mem_cons] at h
      rw [List.flatten_cons, fill_append h.1, ih h.2]
      simp [fillAll]

/-! ## Buffers along a run -/

namespace IsRun

/-- A buffer gets the start of the stream of bytes. -/
theorem fill (h : IsRun source ρ ws) (buffer : List UInt8) :
    (WordSource.fill buffer).run source =
      .ok ((List.range buffer.length).map (streamByte ws), ρ ((buffer.length + 3) / 4)) := by
  have hlength : min buffer.length (4 * ((buffer.length + 3) / 4)) = buffer.length := by omega
  rw [fill_eq, run_map_of_run (h.draws _), flatMap_bytes_map_range, ← List.map_take,
    List.take_range, hlength]
  rfl

/-- Buffers keep their lengths. -/
theorem exists_fillAll (h : IsRun source ρ ws) (buffers : List (List UInt8)) :
    ∃ filled m, (fillAll buffers).run source = .ok (filled, ρ m) ∧
      filled.map List.length = buffers.map List.length := by
  induction buffers generalizing source ρ ws with
  | nil => exact ⟨[], 0, by rw [h.init]; rfl, rfl⟩
  | cons buffer buffers ih =>
    obtain ⟨filled, m, hrun, hlengths⟩ := ih (h.drop _)
    refine ⟨_, _, run_mapM_cons (h.fill buffer) hrun, ?_⟩
    rw [List.map_cons, List.map_cons, hlengths, List.length_map, List.length_range]

/-- A word has the first four bytes of the stream. -/
theorem next (h : IsRun source ρ ws) :
    ∃ w, WordSource.next.run source = .ok (w, ρ 1) ∧
      littleEndian 4 w.toNat = (List.range 4).map (streamByte ws) := by
  have hnext := h.step 0
  rw [h.init] at hnext
  refine ⟨ws 0, hnext, ?_⟩
  rw [← Word.bytes_eq_littleEndian]
  exact (List.append_nil _).symm.trans (flatMap_bytes_map_range ws 1)

/-- A long word has the first eight bytes of the stream. -/
theorem long (h : IsRun source ρ ws) :
    ∃ w, WordSource.long.run source = .ok (w, ρ 2) ∧
      littleEndian 8 w.toNat = (List.range 8).map (streamByte ws) := by
  obtain ⟨w, hview, hw⟩ := Call.view_long (ws 0) (ws 1)
  have hhigh : w.toNat >>> (8 * 4) = (ws 1).toNat := by
    have hlow := (ws 0).toNat_lt
    rw [hw, Nat.shiftRight_eq_div_pow]
    change ((ws 0).toNat + 4294967296 * (ws 1).toNat) / 4294967296 = _
    omega
  refine ⟨w, ?_, ?_⟩
  · rw [long_eq, run_map_of_run (h.draws 2), ← Answer.long.inj hview]
    rfl
  · rw [littleEndian_add 4 4, hhigh, hw, littleEndian_four_add, ← Word.bytes_eq_littleEndian,
      ← Word.bytes_eq_littleEndian]
    exact (List.append_nil _).symm.trans (flatMap_bytes_map_range ws 2)

end IsRun

end WordSource

end Twister
