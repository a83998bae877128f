import Twister.Proofs.Draw.Views

/-!
# Calls and the words they take

Calls of all kinds, performed one after the other on a source, share out the words that it draws:
each call takes the next words, as many as it costs, and answers by what it sees of them. A call
with its share is a *take* (`Take`). What its source is does not show in it; so calls with the same
shares have the same answers on every source, and in particular on a script that replays the
words.

* `IsRun.perform`, `IsRun.performAll`, `IsRun.exists_takes`: calls performed along an endless run
  of draws;
* `Script.performAll_run`: calls performed on a script of their words;
* `view_long`: of the two words of a long word, the first is the lower half.
-/

namespace Twister

/-- A call with the words it takes. -/
structure Take where
  /-- The call. -/
  call : Call
  /-- The words. -/
  words : List Word
  /-- The call takes as many words as it costs. -/
  length_words : words.length = call.cost

namespace Take

/-- The answer of the call, which is a view of its words. -/
def answer (take : Take) : Answer := take.call.view take.words

/-- The takes of calls performed one after the other while the words `ws` are drawn. -/
def along : List Call → (Nat → Word) → List Take
  | [], _ => []
  | call :: calls, ws =>
    { call, words := (List.range call.cost).map ws, length_words := by simp } ::
      along calls fun n => ws (call.cost + n)

end Take

/-- The number of words that calls take together. -/
def Call.totalCost : List Call → Nat
  | [] => 0
  | call :: calls => call.cost + totalCost calls

/-- Performing calls from left to right. -/
def Call.performAll {σ : Type} [WordSource σ] (calls : List Call) : Drawing σ (List Answer) :=
  calls.mapM perform

/-- Of the two words of a long word, the first is the lower half. -/
theorem Call.view_long (low high : Word) :
    ∃ w, long.view [low, high] = .long w ∧ w.toNat = low.toNat + UInt32.size * high.toNat := by
  refine ⟨_, rfl, ?_⟩
  have hlow : low.toNat < 2 ^ 32 := low.toNat_lt
  have hhigh := high.toNat_lt
  -- The upper half is moved up without loss, and the two halves have no bit in common.
  have hmoved : (high.toUInt64 <<< 32).toNat = 2 ^ 32 * high.toNat := by
    rw [UInt64.toNat_shiftLeft, UInt32.toNat_toUInt64, Nat.shiftLeft_eq]
    change high.toNat * 4294967296 % 18446744073709551616 = 4294967296 * high.toNat
    omega
  change ((high.toUInt64 <<< 32) ||| low.toUInt64).toNat = _
  rw [UInt64.toNat_or, hmoved, UInt32.toNat_toUInt64, ← Nat.two_pow_add_eq_or_of_lt hlow,
    Nat.add_comm]

/-! ## Starts of a sequence -/

/-- The sequence `ws` starts with the words of `v`. -/
def StartsWith (ws : Nat → Word) (v : List Word) : Prop :=
  (List.range v.length).map ws = v

theorem startsWith_append {ws : Nat → Word} {v w : List Word} :
    StartsWith ws (v ++ w) ↔ StartsWith ws v ∧ StartsWith (fun n => ws (v.length + n)) w := by
  have hsplit : (List.range (v ++ w).length).map ws =
      (List.range v.length).map ws ++ (List.range w.length).map fun n => ws (v.length + n) := by
    rw [List.length_append, List.range_add, List.map_append, List.map_map]
    rfl
  rw [StartsWith, hsplit]
  constructor
  · intro h
    exact List.append_inj h (by rw [List.length_map, List.length_range])
  · rintro ⟨hv, hw⟩
    rw [hv, hw]

theorem startsWith_map_range (ws : Nat → Word) (n : Nat) :
    StartsWith ws ((List.range n).map ws) := by
  rw [StartsWith, List.length_map, List.length_range]

namespace Take

theorem length_flatMap_words (takes : List Take) :
    (takes.flatMap words).length = Call.totalCost (takes.map call) := by
  induction takes with
  | nil => rfl
  | cons take takes ih =>
    rw [List.flatMap_cons, List.length_append, take.length_words, ih]
    rfl

theorem map_call_along (calls : List Call) (ws : Nat → Word) :
    (along calls ws).map call = calls := by
  induction calls generalizing ws with
  | nil => rfl
  | cons call calls ih => rw [along, List.map_cons, ih]

theorem startsWith_along (calls : List Call) (ws : Nat → Word) :
    StartsWith ws ((along calls ws).flatMap words) := by
  induction calls generalizing ws with
  | nil => rfl
  | cons call calls ih =>
    rw [along, List.flatMap_cons, startsWith_append]
    refine ⟨startsWith_map_range ws call.cost, ?_⟩
    rw [List.length_map, List.length_range]
    exact ih _

end Take

/-! ## Performing calls -/

namespace WordSource.IsRun

variable {σ : Type} [WordSource σ] {source : σ} {ρ : Nat → σ} {ws : Nat → Word}

theorem perform (h : IsRun source ρ ws) (take : Take) (hws : StartsWith ws take.words) :
    take.call.perform.run source = .ok (take.answer, ρ take.words.length) := by
  have hdraws := h.draws take.words.length
  rw [hws, take.length_words] at hdraws
  rw [take.length_words]
  exact Call.perform_run_of_draws hdraws

/-- Calls performed along a run of draws take their shares of it one after the other. -/
theorem performAll (h : IsRun source ρ ws) (takes : List Take)
    (hws : StartsWith ws (takes.flatMap Take.words)) :
    (Call.performAll (takes.map Take.call)).run source =
      .ok (takes.map Take.answer, ρ (takes.flatMap Take.words).length) := by
  induction takes generalizing source ρ ws with
  | nil =>
    rw [← h.init]
    rfl
  | cons take takes ih =>
    rw [List.flatMap_cons, startsWith_append] at hws
    have hrest := ih (h.drop take.words.length) hws.2
    rw [List.flatMap_cons, List.length_append]
    exact run_mapM_cons (h.perform take hws.1) hrest

/-- Calls performed along a run of draws take what is drawn for their cost. -/
theorem exists_takes (h : IsRun source ρ ws) (calls : List Call) :
    ∃ (takes : List Take) (left : σ), takes.map Take.call = calls ∧
      (Call.performAll calls).run source = .ok (takes.map Take.answer, left) ∧
      (WordSource.draws (Call.totalCost calls)).run source =
        .ok (takes.flatMap Take.words, left) := by
  have hcalls := Take.map_call_along calls ws
  have hstart := Take.startsWith_along calls ws
  have hlength := Take.length_flatMap_words (Take.along calls ws)
  have hrun := h.performAll _ hstart
  rw [hcalls] at hlength hrun
  refine ⟨Take.along calls ws, _, hcalls, hrun, ?_⟩
  rw [← hlength, h.draws, hstart]

end WordSource.IsRun

/-! ## Scripts -/

namespace Script

open WordSource (IsRun)

/-- A script runs on for ever. -/
theorem isRun (script : Script) :
    IsRun script (fun n => { script with drawn := script.drawn + n })
      fun n => script.word (script.drawn + n) :=
  ⟨rfl, fun _ => rfl⟩

theorem startsWith_word {script : Script} {v : List Word} (h : v <+: script.words) :
    StartsWith script.word v := by
  refine List.ext_getElem ?_ fun i hi hi' => ?_
  · rw [List.length_map, List.length_range]
  · have hplace : i % script.words.length = i :=
      Nat.mod_eq_of_lt (Nat.lt_of_lt_of_le hi' h.length_le)
    rw [List.getElem_map, List.getElem_range, h.getElem hi']
    simp only [word, hplace]

/-- Calls performed on a script that starts with their words answer what they see of these. -/
theorem performAll_run {script : Script} (hdrawn : script.drawn = 0) {takes : List Take}
    (h : takes.flatMap Take.words <+: script.words) :
    (Call.performAll (takes.map Take.call)).run script =
      .ok (takes.map Take.answer,
        { script with drawn := (takes.flatMap Take.words).length }) := by
  have hrun := script.isRun
  rw [hdrawn] at hrun
  simp only [Nat.zero_add] at hrun
  exact hrun.performAll takes (startsWith_word h)

end Script

end Twister
