import Twister.Proofs.Session.Run
import Twister.Session.Basic

/-!
# Commands carried out

What a command does is worked out here once, for the commands that pass the session on to
something else: to the engine of a number, to the entropy, to a snapshot that was saved. Most
commands do none of this but look at engines and make others of them. These leave the entropy
alone, and no snapshot is rejected.

* `act_run_of_some`, `act_run_of_none`: an action on the engine of a number;
* `perform_keepsEntropy`: the commands that have nothing to do with entropy.
-/

namespace Twister

/-- The rejection that came of an operation, if any. -/
def Reply.rejection? : Reply → Option RestoreError
  | rejected error => some error
  | _ => none

namespace Session

theorem useEntropy_run {α : Type} {use : StateM Entropy α} {session : Session} {answer : α}
    {entropy : Entropy} (h : use.run session.entropy = (answer, entropy)) :
    (useEntropy use).run session = (answer, { session with entropy }) := by
  simp only [useEntropy, StateT.run_modifyGet, h]
  rfl

theorem withEngine_run_of_some {session : Session} {number : Nat} {engine : Engine}
    (h : session.engines.get? number = some engine) (use : Engine → StateM Session Reply) :
    (withEngine number use).run session = (use engine).run session := by
  simp only [withEngine, StateT.run_bind, StateT.run_get, pure_bind, h]

theorem withEngine_run_of_none {session : Session} {number : Nat}
    (h : session.engines.get? number = none) (use : Engine → StateM Session Reply) :
    (withEngine number use).run session = (.absent, session) := by
  simp only [withEngine, StateT.run_bind, StateT.run_get, pure_bind, h]
  rfl

theorem act_run_of_some {session : Session} {number : Nat} {engine engine' : Engine}
    {action : Action} {reply : Reply} {entropy : Entropy}
    (h : session.engines.get? number = some engine)
    (hrun : (action.perform.run engine).run session.entropy = ((reply, engine'), entropy)) :
    (act number action).run session =
      (reply, { session with engines := session.engines.put number engine', entropy }) := by
  rw [act, withEngine_run_of_some h, StateT.run_bind, useEntropy_run hrun]
  rfl

theorem act_run_of_none {session : Session} {number : Nat}
    (h : session.engines.get? number = none) (action : Action) :
    (act number action).run session = (.absent, session) :=
  withEngine_run_of_none h _

theorem perform_restore_run_of_some {session : Session} {slot : Nat} {snapshot : Snapshot}
    (h : session.snapshots.get? slot = some snapshot) (number : Nat) :
    (perform (.restore number slot)).run session =
      (act number (.restore snapshot)).run session := by
  simp only [perform, StateT.run_bind, StateT.run_get, pure_bind, h]

theorem perform_restore_run_of_none {session : Session} {slot : Nat}
    (h : session.snapshots.get? slot = none) (number : Nat) :
    (perform (.restore number slot)).run session = (.absent, session) := by
  simp only [perform, StateT.run_bind, StateT.run_get, pure_bind, h]
  rfl

/-! ## Commands without entropy -/

/-- Carrying out `m` leaves the entropy alone, and rejects nothing. -/
def KeepsEntropy (m : StateM Session Reply) (session : Session) : Prop :=
  ∃ reply session', m.run session = (reply, session') ∧
    session'.entropy = session.entropy ∧ reply.rejection? = none

theorem keepsEntropy_withEngine {session : Session} {number : Nat}
    {use : Engine → StateM Session Reply} (huse : ∀ engine, KeepsEntropy (use engine) session) :
    KeepsEntropy (withEngine number use) session := by
  cases hget : session.engines.get? number with
  | none => exact ⟨_, _, withEngine_run_of_none hget use, rfl, rfl⟩
  | some engine =>
    obtain ⟨reply, session', hrun, h⟩ := huse engine
    exact ⟨reply, session', (withEngine_run_of_some hget use).trans hrun, h⟩

theorem keepsEntropy_spawn (number parent : Nat) (session : Session) :
    KeepsEntropy (perform (.spawn number parent)) session := by
  refine keepsEntropy_withEngine fun engine => ?_
  cases hrun : Engine.ofParent.run engine with
  | error fault => exact ⟨_, _, rfl, rfl, rfl⟩
  | ok spawned =>
    rcases spawned with ⟨_ | child, engine'⟩
    · exact ⟨_, _, rfl, rfl, rfl⟩
    · exact ⟨_, _, rfl, rfl, rfl⟩

end Session

/-- The commands that neither take anything from the entropy nor restore a snapshot. -/
def Command.IsPlain : Command → Prop
  | createOfBytes _ _ | spawn _ _ | clone _ _ | compare _ _ | save _ _ => True
  | count _ | describeMixer _ => True
  | _ => False

theorem Session.perform_keepsEntropy {command : Command} (h : command.IsPlain)
    (session : Session) : KeepsEntropy (perform command) session := by
  cases command with
  | createOfBytes number bytes => exact ⟨_, _, rfl, rfl, rfl⟩
  | spawn number parent => exact keepsEntropy_spawn number parent session
  | clone number target => exact keepsEntropy_withEngine fun engine => ⟨_, _, rfl, rfl, rfl⟩
  | compare number other =>
    refine keepsEntropy_withEngine fun engine => ?_
    exact keepsEntropy_withEngine fun engine' => ⟨_, _, rfl, rfl, rfl⟩
  | save number slot => exact keepsEntropy_withEngine fun engine => ⟨_, _, rfl, rfl, rfl⟩
  | count mixer => exact ⟨_, _, rfl, rfl, rfl⟩
  | describeMixer mixer => exact ⟨_, _, rfl, rfl, rfl⟩
  | _ => exact h.elim

end Twister
