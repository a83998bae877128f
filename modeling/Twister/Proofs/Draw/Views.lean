import Twister.Draw.Call

/-!
# Draws as views of words

A draw of any kind takes a number of consecutive words from its source (`Call.cost`), and its
answer is computed from these words alone (`Call.view`). So to draw from a source is to draw
words one after the other (`WordSource.draws`) and to look at them, on every source and with all
arguments.

Words may be drawn without end: each draw is made in the state that the one before it left behind
(`WordSource.IsRun`). A source has one such run at most, as a draw has one answer and one next
state, and it has none if some draw ends in a fault. Drawing a number of words follows the run for
as long, and what is left is the rest of it.

* `fill_eq`: a buffer takes one word for every four bytes, and a whole one for what is left;
* `perform_eq`, `perform_run_of_draws`: a draw is a view of the words it takes;
* `IsRun.unique`: a source has at most one endless run;
* `IsRun.drop`: the rest of a run is the run of what is left;
* `IsRun.draws`: the first words of a run are what is drawn.
-/

namespace Twister

namespace WordSource

variable {σ : Type} [WordSource σ]

/-- Drawing words one after the other. -/
def draws : Nat → Drawing σ (List Word)
  | 0 => return []
  | n + 1 => do
    let w ← next
    let ws ← draws n
    return w :: ws

/-- What is made of one word is a view of a run of length one. -/
theorem map_next {α : Type} (f : Word → α) :
    (f <$> next : Drawing σ α) = (fun ws => f (ws.headD 0)) <$> draws 1 := by
  simp [draws]

theorem map_map_next {α β : Type} (g : α → β) (f : Word → α) :
    (g <$> f <$> next : Drawing σ β) = (fun ws => g (f (ws.headD 0))) <$> draws 1 := by
  rw [← comp_map]
  exact map_next _

theorem long_eq : (long : Drawing σ UInt64) =
    (fun ws : List Word => ((ws.getD 1 0).toUInt64 <<< 32) ||| (ws.getD 0 0).toUInt64) <$>
      draws 2 := by
  simp [long, draws]

theorem fill_eq (buffer : List UInt8) :
    (fill buffer : Drawing σ (List UInt8)) =
      (fun ws => (ws.flatMap fun w => w.bytes.toList).take buffer.length) <$>
        draws ((buffer.length + 3) / 4) := by
  induction hn : buffer.length using Nat.strongRecOn generalizing buffer with
  | ind n ih =>
    subst hn
    by_cases hb : buffer = []
    · simp [hb, fill, draws]
    · have hpos := List.length_pos_iff.2 hb
      have hlen : (buffer.drop 4).length = buffer.length - 4 := List.length_drop
      have hcost : (buffer.length + 3) / 4 = (buffer.length - 4 + 3) / 4 + 1 := by omega
      -- The first word fills what fits of it, and the others what is left.
      have htake (w : Word) (ws : List Word) :
          (w.bytes.toList ++ ws.flatMap fun w => w.bytes.toList).take buffer.length =
            w.bytes.toList.take buffer.length ++
              (ws.flatMap fun w => w.bytes.toList).take (buffer.length - 4) := by
        rw [List.take_append, Vector.length_toList]
      rw [fill_of_ne_nil hb, ih _ (by omega) (buffer.drop 4) rfl, hlen, hcost, draws]
      simp [htake]

end WordSource

namespace Call

/-- The number of words a draw takes. -/
def cost : Call → Nat
  | long => 2
  | bytes buffer | bytes? buffer => (buffer.length + 3) / 4
  | _ => 1

/-- The answer of a draw, given the words it takes. -/
def view (call : Call) (ws : List Word) : Answer :=
  match call with
  | word => .word (ws.headD 0)
  | scaled values => .word (Word.scale values (ws.headD 0))
  | between min max => .integer (Word.between min max (ws.headD 0))
  | unit => .double (Word.toUnit (ws.headD 0))
  | interval min max => .double (Word.toInterval min max (ws.headD 0))
  | long => .long (((ws.getD 1 0).toUInt64 <<< 32) ||| (ws.getD 0 0).toUInt64)
  | bytes buffer => .bytes ((ws.flatMap fun w => w.bytes.toList).take buffer.length)
  | bytes? buffer => .bytes? (some ((ws.flatMap fun w => w.bytes.toList).take buffer.length))

/-- A draw of any kind is a view of the words it takes. -/
theorem perform_eq {σ : Type} [WordSource σ] (call : Call) :
    (call.perform : Drawing σ Answer) = call.view <$> WordSource.draws call.cost := by
  cases call with
  | word => exact WordSource.map_next _
  | scaled values => exact WordSource.map_map_next _ _
  | between min max => exact WordSource.map_map_next _ _
  | unit => exact WordSource.map_map_next _ _
  | interval min max => exact WordSource.map_map_next _ _
  | long =>
    rw [perform, WordSource.long_eq, ← comp_map]
    rfl
  | bytes buffer =>
    rw [perform, WordSource.fill_eq, ← comp_map]
    rfl
  | bytes? buffer =>
    rw [perform, WordSource.fill?, WordSource.fill_eq, ← comp_map, ← comp_map]
    rfl

theorem perform_run_of_draws {σ : Type} [WordSource σ] {call : Call} {source source' : σ}
    {ws : List Word} (h : (WordSource.draws call.cost).run source = .ok (ws, source')) :
    call.perform.run source = .ok (call.view ws, source') := by
  rw [perform_eq]
  exact run_map_of_run h call.view

end Call

/-! ## Endless runs -/

namespace WordSource

variable {σ : Type} [WordSource σ] {source source' : σ}

/-- An endless run of draws from a source: the states `ρ n`, draw `n` answering the word
    `ws n`. -/
structure IsRun (source : σ) (ρ : Nat → σ) (ws : Nat → Word) : Prop where
  init : ρ 0 = source
  step : ∀ n, next.run (ρ n) = .ok (ws n, ρ (n + 1))

variable {ρ ρ' : Nat → σ} {ws ws' : Nat → Word}

theorem IsRun.unique (h : IsRun source ρ ws) (h' : IsRun source ρ' ws') : ρ = ρ' ∧ ws = ws' := by
  have hstate : ρ = ρ' := by
    funext n
    induction n with
    | zero => rw [h.init, h'.init]
    | succ n ih =>
      have hn := h.step n
      rw [ih, h'.step n, Except.ok.injEq, Prod.mk.injEq] at hn
      exact hn.2.symm
  refine ⟨hstate, ?_⟩
  funext n
  have hn := h.step n
  rw [hstate, h'.step n, Except.ok.injEq, Prod.mk.injEq] at hn
  exact hn.1.symm

/-- After `m` draws, what is left runs on as before. -/
theorem IsRun.drop (h : IsRun source ρ ws) (m : Nat) :
    IsRun (ρ m) (fun n => ρ (m + n)) fun n => ws (m + n) :=
  ⟨rfl, fun n => h.step (m + n)⟩

/-- Drawing a word and then `n` more. -/
theorem draws_succ_run {n : Nat} {w : Word} {v : List Word} {left : σ}
    (hw : next.run source = .ok (w, source')) (hv : (draws n).run source' = .ok (v, left)) :
    (draws (n + 1)).run source = .ok (w :: v, left) := by
  rw [draws, run_bind_of_run hw, run_bind_of_run hv]
  rfl

theorem IsRun.draws (h : IsRun source ρ ws) (n : Nat) :
    (draws n).run source = .ok ((List.range n).map ws, ρ n) := by
  induction n generalizing source ρ ws with
  | zero =>
    rw [h.init]
    rfl
  | succ n ih =>
    have hfirst := h.step 0
    have hrest := ih (h.drop 1)
    rw [h.init] at hfirst
    rw [draws_succ_run hfirst hrest, List.range_succ_eq_map, List.map_cons, List.map_map,
      Nat.add_comm 1 n]
    simp only [Nat.add_comm 1]
    rfl

end WordSource

end Twister
