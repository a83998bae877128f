import Twister.Proofs.Draw.Filling
import Twister.Proofs.Session.Reachable

/-!
# Drawing from reachable engines

Calls of all kinds are performed on a reachable engine without a fault, whatever their arguments
and wherever they meet the end of a block. The engine draws as many words as the calls cost, one
after the other, and each call sees no more than its own share of them.

Buffers of any lengths are filled with the bytes of the words that are drawn, one after the other,
wherever they meet the end of a block. So buffers that lose no byte on the way may be joined or
split.

* `calls_view_stream`: calls performed on an engine, and some of them on a script of their words;
* `buffers_show_stream`: the bytes written and lost, buffers in parts, and whole words.
-/

namespace Twister.Engine

open WordSource (IsRun draws next long fill fill? fillAll fillAll?)

/-- Calls performed on a reachable engine leave it as if the words they cost had been drawn one by
    one, and share out these words in order: each call answers what it sees of its own. So any of
    the calls have the same answers on a script that starts with their words. -/
theorem calls_view_stream :
    (∀ engine : Engine, engine.Reachable → ∀ calls : List Call,
      ∃ (takes : List Take) (engine' : Engine), takes.map Take.call = calls ∧
        (Call.performAll calls).run engine = .ok (takes.map Take.answer, engine') ∧
        (draws (Call.totalCost calls)).run engine = .ok (takes.flatMap Take.words, engine') ∧
        ∀ chosen : List Take, chosen.Sublist takes → ∀ script : Script, script.drawn = 0 →
          chosen.flatMap Take.words <+: script.words →
            (Call.performAll (chosen.map Take.call)).run script =
              .ok (chosen.map Take.answer,
                { script with drawn := Call.totalCost (chosen.map Take.call) })) ∧
    ∀ low high : Word, ∃ w,
      Call.long.view [low, high] = .long w ∧ w.toNat = low.toNat + UInt32.size * high.toNat := by
  refine ⟨fun engine h calls => ?_, Call.view_long⟩
  obtain ⟨takes, engine', hcalls, hanswers, hdraws⟩ := h.inStep.isRun.exists_takes calls
  refine ⟨takes, engine', hcalls, hanswers, hdraws, fun chosen _ script hdrawn hscript => ?_⟩
  rw [script.performAll_run hdrawn hscript, Take.length_flatMap_words]

/-- With one word of the block left, a long word is put together of two blocks. It is drawn again
    from a script, and so is a number that is drawn after a buffer. -/
theorem calls_view_stream_two_blocks :
    (ofBlock (.replicate 624 1) 623).Reachable ∧
    ∃ (takes : List Take) (engine' : Engine),
      takes.map Take.call = [.long, .bytes [0, 0, 0, 0, 0], .scaled 0] ∧
      (Call.performAll [.long, .bytes [0, 0, 0, 0, 0], .scaled 0]).run
        (ofBlock (.replicate 624 1) 623) = .ok (takes.map Take.answer, engine') ∧
      (draws 5).run (ofBlock (.replicate 624 1) 623) =
        .ok (takes.flatMap Take.words, engine') ∧
      ∃ script : Script, takes.flatMap Take.words <+: script.words ∧
        (Call.performAll (takes.map Take.call)).run script =
          .ok (takes.map Take.answer, { script with drawn := 5 }) := by
  have h : (ofBlock (.replicate 624 1) 623).Reachable := reachable_ofBlock _ (by decide)
  obtain ⟨takes, engine', hcalls, hanswers, hdraws, hscripts⟩ :=
    calls_view_stream.1 _ h [.long, .bytes [0, 0, 0, 0, 0], .scaled 0]
  -- A script must not be empty, so it goes on after the words of the calls.
  have hne : takes.flatMap Take.words ++ [0] ≠ [] := List.concat_ne_nil _ _
  have hwords := List.prefix_append (takes.flatMap Take.words) [0]
  have hscript := hscripts takes (List.Sublist.refl takes) ⟨_, 0, hne⟩ rfl hwords
  rw [hcalls] at hscript
  refine ⟨h, takes, engine', hcalls, hanswers, hdraws, ⟨_, 0, hne⟩, hwords, ?_⟩
  rw [hcalls]
  exact hscript

/-! ## Buffers -/

/-- A buffer is filled with the start of the stream of bytes that an engine draws, whatever it held
    before, and what it leaves of its last word is lost. So if the lengths of buffers are multiples
    of four, but for the last one, they get together what one buffer of their total length gets,
    and leave the engine as this buffer does. Eight bytes are those of a long word, and four are
    those of a word. -/
theorem buffers_show_stream {engine : Engine} (h : engine.Reachable) :
    ∃ ρ ws, IsRun engine ρ ws ∧
      (∀ buffer : List UInt8, ∃ engine' ρ' ws',
        (fill buffer).run engine =
          .ok ((List.range buffer.length).map (streamByte ws), engine') ∧
        (fill? buffer).run engine =
          .ok (some ((List.range buffer.length).map (streamByte ws)), engine') ∧
        IsRun engine' ρ' ws' ∧
        ∀ j, streamByte ws' j = streamByte ws (buffer.length + lostBytes buffer.length + j)) ∧
      (∀ buffers : List (List UInt8), (∀ buffer ∈ buffers.dropLast, 4 ∣ buffer.length) →
        ∃ filled engine', filled.map List.length = buffers.map List.length ∧
          (fillAll buffers).run engine = .ok (filled, engine') ∧
          (fillAll? buffers).run engine = .ok (filled.map some, engine') ∧
          ∀ whole : List UInt8, whole.length = buffers.flatten.length →
            (fill whole).run engine = .ok (filled.flatten, engine')) ∧
      ∀ buffer : List UInt8,
        (buffer.length = 8 → ∃ w engine', long.run engine = .ok (w, engine') ∧
          (fill buffer).run engine = .ok (littleEndian 8 w.toNat, engine')) ∧
        (buffer.length = 4 → ∃ w engine', next.run engine = .ok (w, engine') ∧
          (fill buffer).run engine = .ok (littleEndian 4 w.toNat, engine')) := by
  obtain ⟨ρ, ws, hrun⟩ : ∃ ρ ws, IsRun engine ρ ws := ⟨_, _, h.inStep.isRun⟩
  refine ⟨ρ, ws, hrun, fun buffer => ?_, fun buffers hwords => ?_, fun buffer => ⟨?_, ?_⟩⟩
  · exact ⟨_, _, _, hrun.fill buffer, run_map_of_run (hrun.fill buffer) some, hrun.drop _,
      streamByte_drop_cost ws buffer.length⟩
  · obtain ⟨filled, m, hfilled, hlengths⟩ := hrun.exists_fillAll buffers
    refine ⟨filled, ρ m, hlengths, hfilled, ?_, fun whole hwhole => ?_⟩
    · rw [WordSource.fillAll?_eq, run_map_of_run hfilled]
      rfl
    · rw [WordSource.fill_eq_of_length_eq hwhole, WordSource.fill_flatten hwords,
        run_map_of_run hfilled]
      rfl
  · intro height
    obtain ⟨w, hlong, hbytes⟩ := hrun.long
    have hfill := hrun.fill buffer
    rw [height, ← hbytes] at hfill
    exact ⟨w, _, hlong, hfill⟩
  · intro hfour
    obtain ⟨w, hnext, hbytes⟩ := hrun.next
    have hfill := hrun.fill buffer
    rw [hfour, ← hbytes] at hfill
    exact ⟨w, _, hnext, hfill⟩

/-- With one word of the block left, buffers of four, no and five bytes are filled as one of nine
    bytes, which loses three more. -/
theorem buffers_show_stream_two_blocks :
    (ofBlock (.replicate 624 1) 623).Reachable ∧ ∃ ρ ws,
      IsRun (ofBlock (.replicate 624 1) 623) ρ ws ∧
      (∃ filled engine' ρ' ws', filled.map List.length = [4, 0, 5] ∧
        (fillAll [[1, 2, 3, 4], [], [5, 6, 7, 8, 9]]).run (ofBlock (.replicate 624 1) 623) =
          .ok (filled, engine') ∧
        (fill [0, 0, 0, 0, 0, 0, 0, 0, 0]).run (ofBlock (.replicate 624 1) 623) =
          .ok (filled.flatten, engine') ∧
        IsRun engine' ρ' ws' ∧ ∀ j, streamByte ws' j = streamByte ws (9 + 3 + j)) ∧
      (∃ w engine', long.run (ofBlock (.replicate 624 1) 623) = .ok (w, engine') ∧
        (fill [0, 0, 0, 0, 0, 0, 0, 0]).run (ofBlock (.replicate 624 1) 623) =
          .ok (littleEndian 8 w.toNat, engine')) ∧
      ∃ w engine', next.run (ofBlock (.replicate 624 1) 623) = .ok (w, engine') ∧
        (fill [0, 0, 0, 0]).run (ofBlock (.replicate 624 1) 623) =
          .ok (littleEndian 4 w.toNat, engine') := by
  have h : (ofBlock (.replicate 624 1) 623).Reachable := reachable_ofBlock _ (by decide)
  obtain ⟨ρ, ws, hrun, hone, hmany, hwhole⟩ := buffers_show_stream h
  obtain ⟨filled, engine', hlengths, hfilled, -, hjoined⟩ :=
    hmany [[1, 2, 3, 4], [], [5, 6, 7, 8, 9]] (by decide)
  obtain ⟨last, ρ', ws', hlast, -, hrun', hstream⟩ := hone [0, 0, 0, 0, 0, 0, 0, 0, 0]
  have hjoined := hjoined [0, 0, 0, 0, 0, 0, 0, 0, 0] rfl
  -- The one buffer and the three leave the same engine.
  have hsame : last = engine' := congrArg Prod.snd (Except.ok.inj (hlast.symm.trans hjoined))
  rw [hsame] at hrun'
  exact ⟨h, ρ, ws, hrun, ⟨filled, engine', ρ', ws', hlengths, hfilled, hjoined, hrun', hstream⟩,
    (hwhole [0, 0, 0, 0, 0, 0, 0, 0]).1 rfl, (hwhole [0, 0, 0, 0]).2 rfl⟩

end Twister.Engine
