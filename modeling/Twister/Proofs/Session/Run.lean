import Twister.Proofs.Engine.Stream
import Twister.Session.Action

/-!
# Runs of actions

Actions are performed on one engine from left to right (`Action.run`), with the entropy around
it passed along. What an action does is said once for each kind of action, and a run is put
together from that.

An action asks for a fault only if it looks at a word by a place that does not exist
(`Action.fault?`). On an engine in step nothing else ends in a fault, and every action leaves the
engine in step.

* `run_cons_run`, `run_append_run`: a run in its parts;
* `InStep.perform`, `InStep.run`: the invariant, along an action and along a run.
-/

namespace Twister

/-- The fault that came of an operation, if any. -/
def Reply.fault? : Reply → Option Fault
  | .fault f => some f
  | _ => none

namespace Action

/-- Performing actions from left to right. -/
def run (actions : List Action) : StateT Engine (StateM Entropy) (List Reply) :=
  actions.mapM perform

/-- The fault an action asks for: looking at a word of no place. -/
def fault? : Action → Option Fault
  | word i => if i < 624 then none else some (.indexOutOfBounds 624 i)
  | _ => none

variable {engine engine' engine'' : Engine} {entropy entropy' entropy'' : Entropy}

/-! ## Runs in parts -/

/-- An action, or some of them, and the rest. -/
theorem run_run_bind_of_run {α β : Type} {program : StateT Engine (StateM Entropy) α} {a : α}
    (h : (program.run engine).run entropy = ((a, engine'), entropy'))
    (rest : α → StateT Engine (StateM Entropy) β) :
    ((program >>= rest).run engine).run entropy = ((rest a).run engine').run entropy' := by
  rw [StateT.run_bind]
  exact run_bind_of_run h _

theorem run_cons_run {action : Action} {actions : List Action} {reply : Reply}
    {replies : List Reply}
    (h : (action.perform.run engine).run entropy = ((reply, engine'), entropy'))
    (hs : ((run actions).run engine').run entropy' = ((replies, engine''), entropy'')) :
    ((run (action :: actions)).run engine).run entropy =
      ((reply :: replies, engine''), entropy'') := by
  rw [run] at hs ⊢
  rw [List.mapM_cons, run_run_bind_of_run h, run_run_bind_of_run hs]
  rfl

theorem run_append_run {actions actions' : List Action} {replies replies' : List Reply}
    (h : ((run actions).run engine).run entropy = ((replies, engine'), entropy'))
    (hs : ((run actions').run engine').run entropy' = ((replies', engine''), entropy'')) :
    ((run (actions ++ actions')).run engine).run entropy =
      ((replies ++ replies', engine''), entropy'') := by
  rw [run] at h hs ⊢
  rw [List.mapM_append, run_run_bind_of_run h, run_run_bind_of_run hs]
  rfl

/-! ## Single actions -/

theorem perform_draw_run {call : Call} {answer : Answer}
    (h : call.perform.run engine = .ok (answer, engine')) :
    ((draw call).perform.run engine).run entropy = ((.answer answer, engine'), entropy) := by
  simp only [perform, StateT.run_bind, StateT.run_get, pure_bind, h]
  rfl

theorem perform_draw_run_of_error {call : Call} {fault : Fault}
    (h : call.perform.run engine = .error fault) :
    ((draw call).perform.run engine).run entropy = ((.fault fault, engine), entropy) := by
  simp only [perform, StateT.run_bind, StateT.run_get, pure_bind, h]
  rfl

theorem perform_restore_run {snapshot : Snapshot} (h : snapshot.restore? = .ok engine') :
    ((restore snapshot).perform.run engine).run entropy = ((.done, engine'), entropy) := by
  rw [perform, h]
  rfl

theorem perform_restore_run_of_error {snapshot : Snapshot} {error : RestoreError}
    (h : snapshot.restore? = .error error) :
    ((restore snapshot).perform.run engine).run entropy =
      ((.rejected error, engine), entropy) := by
  rw [perform, h]
  rfl

theorem perform_word_run_of_ok {i : Nat} {w : Word} (h : engine.word i = .ok w) :
    ((word i).perform.run engine).run entropy = ((.answer (.word w), engine), entropy) := by
  simp only [perform, StateT.run_bind, StateT.run_get, pure_bind, h]
  rfl

theorem perform_word_run_of_error {i : Nat} {fault : Fault} (h : engine.word i = .error fault) :
    ((word i).perform.run engine).run entropy = ((.fault fault, engine), entropy) := by
  simp only [perform, StateT.run_bind, StateT.run_get, pure_bind, h]
  rfl

/-- Looking at a word of the block changes nothing, and ends in a fault only if asked for. -/
theorem perform_word_run (i : Nat) :
    ∃ reply, ((word i).perform.run engine).run entropy = ((reply, engine), entropy) ∧
      reply.fault? = (word i).fault? := by
  by_cases hi : i < 624
  · have hword : engine.word i = .ok engine.words[i] := by
      rw [Engine.word, Vector.getElem?_eq_getElem hi]
    exact ⟨_, perform_word_run_of_ok hword, (if_pos hi).symm⟩
  · have hword : engine.word i = .error (.indexOutOfBounds 624 i) := by
      rw [Engine.word, Vector.getElem?_eq_none (Nat.not_lt.1 hi), Block.size]
    exact ⟨_, perform_word_run_of_error hword, (if_neg hi).symm⟩

/-- Seeding puts the engine of some seed in the place of the engine. -/
theorem exists_reseedFrom_run (engine : Engine) (wall : Reading) (origin : SeedOrigin)
    (mixer : Mixer) :
    ∃ seed mixer', (engine.reseedFrom wall origin).run mixer = (.ofSeed seed, mixer') := by
  cases origin with
  | given seed => exact ⟨seed, mixer, rfl⟩
  | clock => exact ⟨_, _, rfl⟩

theorem perform_reseedFrom_run_of_useShared {origin : SeedOrigin}
    (h : (Entropy.useShared (engine.reseedFrom · origin)).run entropy = (engine', entropy')) :
    ((reseedFrom origin).perform.run engine).run entropy = ((.done, engine'), entropy') := by
  simp only [perform, StateT.run_bind, StateT.run_get, StateT.run_monadLift, pure_bind,
    monadLift_self, h]
  rfl

theorem perform_reseedFrom_run (origin : SeedOrigin) :
    ∃ seed entropy', ((reseedFrom origin).perform.run engine).run entropy =
      ((.done, .ofSeed seed), entropy') := by
  obtain ⟨seed, mixer, h⟩ := exists_reseedFrom_run engine entropy.wall origin entropy.shared
  exact ⟨seed, _, perform_reseedFrom_run_of_useShared (Entropy.useShared_run h)⟩

end Action

/-! ## The invariant -/

namespace Engine

variable {engine : Engine}

theorem inStep_ofSeed (seed : Word) : (ofSeed seed).InStep :=
  inStep_regenerate _

/-- A draw of any kind from an engine in step has an answer, and leaves it in step. -/
theorem InStep.call (h : engine.InStep) (call : Call) :
    ∃ answer engine', call.perform.run engine = .ok (answer, engine') ∧ engine'.InStep := by
  obtain ⟨ws, engine', hrun, h'⟩ := h.draws call.cost
  exact ⟨call.view ws, engine', Call.perform_run_of_draws hrun, h'⟩

theorem InStep.perform (h : engine.InStep) (action : Action) (entropy : Entropy) :
    ∃ reply engine' entropy',
      (action.perform.run engine).run entropy = ((reply, engine'), entropy') ∧
      engine'.InStep ∧ reply.fault? = action.fault? := by
  cases action with
  | draw call =>
    obtain ⟨answer, engine', hrun, h'⟩ := h.call call
    exact ⟨_, engine', entropy, Action.perform_draw_run hrun, h', rfl⟩
  | reseedByWord w =>
    obtain ⟨seed, entropy', hrun⟩ := Action.perform_reseedFrom_run (.ofWord w)
    exact ⟨_, _, entropy', hrun, inStep_ofSeed seed, rfl⟩
  | reseedFrom origin =>
    obtain ⟨seed, entropy', hrun⟩ := Action.perform_reseedFrom_run origin
    exact ⟨_, _, entropy', hrun, inStep_ofSeed seed, rfl⟩
  | reseedByClock reading mixer => exact ⟨_, _, _, rfl, inStep_ofSeed _, rfl⟩
  | restore snapshot =>
    cases hs : snapshot.restore? with
    | ok engine' =>
      obtain ⟨hcursor, rfl, hremaining⟩ := Snapshot.restore?_eq_ok_iff.1 hs
      exact ⟨_, engine', entropy, Action.perform_restore_run hs, ⟨hcursor, hremaining⟩, rfl⟩
    | error error =>
      exact ⟨_, engine, entropy, Action.perform_restore_run_of_error hs, h, rfl⟩
  | word i =>
    obtain ⟨reply, hrun, hfault⟩ := Action.perform_word_run i
    exact ⟨reply, engine, entropy, hrun, h, hfault⟩
  | words => exact ⟨_, engine, entropy, rfl, h, rfl⟩
  | cursor => exact ⟨_, engine, entropy, rfl, h, rfl⟩
  | describe => exact ⟨_, engine, entropy, rfl, h, rfl⟩

theorem InStep.run (h : engine.InStep) (actions : List Action) (entropy : Entropy) :
    ∃ replies engine' entropy',
      ((Action.run actions).run engine).run entropy = ((replies, engine'), entropy') ∧
      engine'.InStep ∧ replies.map Reply.fault? = actions.map Action.fault? := by
  induction actions generalizing engine entropy with
  | nil => exact ⟨[], engine, entropy, rfl, h, rfl⟩
  | cons action actions ih =>
    obtain ⟨reply, engine', entropy', hrun, h', hfault⟩ := h.perform action entropy
    obtain ⟨replies, engine'', entropy'', hruns, h'', hfaults⟩ := ih h' entropy'
    refine ⟨_, engine'', entropy'', Action.run_cons_run hrun hruns, h'', ?_⟩
    rw [List.map_cons, List.map_cons, hfault, hfaults]

end Engine

end Twister
