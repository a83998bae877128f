import Twister.Proofs.Engine.Seeding
import Twister.Proofs.Session.Command
import Mathlib.Data.List.Forall2

/-!
# Reachable engines

The engines that can come about (`Engine.Reachable`) are those that are made, in any of the ways
there are, and those that an action makes of a reachable one, in any entropy. All of them are in
step; so their draws never fail, and the one operation on them without an answer is looking at a
word of no place.

A session only ever keeps reachable engines, whatever its commands, their order and the engines
they name: a copy is the engine it was made of, and a child is made of the bytes its parent
draws.

* `Reachable.inStep`: the invariant of the engines that can come about;
* `Session.Sound.perform`: a command keeps the engines of a session reachable;
* `runs_safe`: what holds of all runs, on one engine and in a session.
-/

namespace Twister

namespace Engine

/-- The engines that can be made and used. A copy of an engine is the same engine, and needs no
    rule. -/
inductive Reachable : Engine → Prop
  /-- An engine seeded with a word. -/
  | created (wall : Reading) (w : Word) (mixer : Mixer) : Reachable ((ofWord wall w).run mixer).1
  /-- An engine with a seed of some origin. -/
  | createdFrom (wall : Reading) (origin : SeedOrigin) (mixer : Mixer) :
      Reachable ((ofOrigin wall origin).run mixer).1
  /-- An engine seeded with bytes. -/
  | createdOfBytes (bytes : Vector UInt8 4) : Reachable (ofBytes bytes)
  /-- An engine seeded with bytes drawn from a parent, a source of any kind. -/
  | spawned {σ : Type} [WordSource σ] {parent parent' : σ} {engine : Engine} :
      ofParent.run parent = .ok (some engine, parent') → Reachable engine
  /-- An engine on which an action was performed. -/
  | acted {engine : Engine} (action : Action) (entropy : Entropy) :
      Reachable engine → Reachable ((action.perform.run engine).run entropy).1.2

theorem inStep_of_ofParent_run {σ : Type} [WordSource σ] {parent parent' : σ} {engine : Engine}
    (h : ofParent.run parent = .ok (some engine, parent')) : engine.InStep := by
  rw [ofParent_eq, StateT.run_map] at h
  cases hfill : (WordSource.fill [0, 0, 0, 0]).run parent with
  | error fault =>
    rw [hfill] at h
    cases h
  | ok drawn =>
    rw [hfill] at h
    have hchild : some (ofBytes (.ofFn fun i => drawn.1.getD i 0)) = some engine :=
      congrArg Prod.fst (Except.ok.inj h)
    rw [← Option.some.inj hchild]
    exact inStep_ofSeed _

theorem inStep_of_reseedFrom (engine : Engine) (wall : Reading) (origin : SeedOrigin)
    (mixer : Mixer) : ((engine.reseedFrom wall origin).run mixer).1.InStep := by
  obtain ⟨seed, mixer', h⟩ := Action.exists_reseedFrom_run engine wall origin mixer
  rw [h]
  exact inStep_ofSeed seed

theorem Reachable.inStep {engine : Engine} (h : engine.Reachable) : engine.InStep := by
  induction h with
  | created wall w mixer => exact inStep_of_reseedFrom blank wall (.ofWord w) mixer
  | createdFrom wall origin mixer => exact inStep_of_reseedFrom blank wall origin mixer
  | createdOfBytes bytes => exact inStep_ofSeed _
  | spawned h => exact inStep_of_ofParent_run h
  | acted action entropy _ ih =>
    obtain ⟨_, _, _, hrun, h', _⟩ := ih.perform action entropy
    rw [hrun]
    exact h'

/-- Every block and cursor can be restored. -/
theorem reachable_ofBlock (words : Block) {cursor : Nat} (h : cursor ≤ 624) :
    (ofBlock words cursor).Reachable := by
  have hmade : (ofBytes #v[0, 0, 0, 0]).Reachable := .createdOfBytes _
  have hacted := hmade.acted (.restore ⟨words.toList, cursor⟩) {}
  rwa [Action.perform_restore_run (restore?_eq_ofBlock words h)] at hacted

/-- Spawning a child from a reachable engine makes two reachable engines of it. -/
theorem Reachable.spawn {engine : Engine} (h : engine.Reachable) :
    ∃ child engine', ofParent.run engine = .ok (some child, engine') ∧
      child.Reachable ∧ engine'.Reachable := by
  obtain ⟨seed, engine', hnext, -⟩ := h.inStep.next
  have hchild : ofParent.run engine = .ok (some (ofSeed seed), engine') := ofParent_run hnext
  -- The parent has done what it does when it is asked for a word.
  have hcall : Call.word.perform.run engine = .ok (.word seed, engine') :=
    run_map_of_run hnext Answer.word
  have hparent := h.acted (.draw .word) {}
  rw [Action.perform_draw_run hcall] at hparent
  exact ⟨ofSeed seed, engine', hchild, .spawned hchild, hparent⟩

end Engine

/-! ## Sessions -/

/-- The fault a command asks for, as an action on an engine does. -/
def Command.fault? : Command → Option Fault
  | act _ action => action.fault?
  | _ => none

namespace Session

/-- The engines of a session are reachable. -/
def Sound (session : Session) : Prop :=
  ∀ number engine, session.engines.get? number = some engine → engine.Reachable

theorem sound_empty : Sound {} := by
  intro number engine h
  rw [Shelf.get?_empty] at h
  cases h

theorem Sound.put {session : Session} (h : session.Sound) (number : Nat) {engine : Engine}
    (he : engine.Reachable) :
    Sound { session with engines := session.engines.put number engine } := by
  intro n engine' hn
  rw [Shelf.get?_put] at hn
  split at hn
  · exact Option.some.inj hn ▸ he
  · exact h n engine' hn

/-- Carrying out `m` keeps the engines of a session reachable, and ends in no other fault than the
    given one. -/
def KeepsSound (m : StateM Session Reply) (fault? : Option Fault) (session : Session) : Prop :=
  ∃ reply session', m.run session = (reply, session') ∧ session'.Sound ∧
    ∀ fault, reply.fault? = some fault → fault? = some fault

/-- What neither faults nor touches the engines keeps them reachable. -/
theorem keepsSound_of_engines_eq {session session' : Session} (h : session.Sound)
    {m : StateM Session Reply} {reply : Reply} {fault? : Option Fault}
    (hrun : m.run session = (reply, session')) (hengines : session'.engines = session.engines)
    (hreply : reply.fault? = none) : KeepsSound m fault? session := by
  refine ⟨reply, session', hrun, fun number engine hn => h number engine (hengines ▸ hn), ?_⟩
  rw [hreply]
  exact fun fault hf => nomatch hf

theorem keepsSound_withEngine {session : Session} (h : session.Sound) {number : Nat}
    {use : Engine → StateM Session Reply} {fault? : Option Fault}
    (huse : ∀ engine, session.engines.get? number = some engine →
      KeepsSound (use engine) fault? session) :
    KeepsSound (withEngine number use) fault? session := by
  cases hget : session.engines.get? number with
  | none => exact keepsSound_of_engines_eq h (withEngine_run_of_none hget use) rfl rfl
  | some engine =>
    obtain ⟨reply, session', hrun, h'⟩ := huse engine hget
    exact ⟨reply, session', (withEngine_run_of_some hget use).trans hrun, h'⟩

theorem keepsSound_act {session : Session} (h : session.Sound) (number : Nat) (action : Action) :
    KeepsSound (act number action) action.fault? session := by
  cases hget : session.engines.get? number with
  | none => exact keepsSound_of_engines_eq h (act_run_of_none hget action) rfl rfl
  | some engine =>
    have he := h number engine hget
    obtain ⟨reply, engine', entropy', hrun, -, hfault⟩ :=
      he.inStep.perform action session.entropy
    have he' : engine'.Reachable := by
      have hacted := he.acted action session.entropy
      rwa [hrun] at hacted
    have hsound : Sound { session with entropy := entropy' } := h
    exact ⟨reply, _, act_run_of_some hget hrun, hsound.put number he', fun fault hf => hfault ▸ hf⟩

theorem Sound.perform {session : Session} (h : session.Sound) (command : Command) :
    KeepsSound (perform command) command.fault? session := by
  cases command with
  | create number w =>
    have hsound (entropy : Entropy) : Sound { session with entropy } := h
    exact ⟨.done, _, rfl, (hsound _).put number (.created _ w _), fun _ hf => nomatch hf⟩
  | createFrom number origin =>
    have hsound (entropy : Entropy) : Sound { session with entropy } := h
    exact ⟨.done, _, rfl, (hsound _).put number (.createdFrom _ origin _),
      fun _ hf => nomatch hf⟩
  | createOfBytes number bytes =>
    exact ⟨.done, _, rfl, h.put number (.createdOfBytes bytes), fun _ hf => nomatch hf⟩
  | spawn number parent =>
    refine keepsSound_withEngine h fun engine hget => ?_
    obtain ⟨child, engine', hrun, hchild, hparent⟩ := (h parent engine hget).spawn
    refine ⟨.cursor engine'.cursor, _, ?_, (h.put parent hparent).put number hchild,
      fun _ hf => nomatch hf⟩
    rw [hrun]
    rfl
  | clone number target =>
    refine keepsSound_withEngine h fun engine hget => ?_
    exact ⟨.done, _, rfl, h.put target (h number engine hget), fun _ hf => nomatch hf⟩
  | act number action => exact keepsSound_act h number action
  | compare number other =>
    refine keepsSound_withEngine h fun engine _ => ?_
    exact keepsSound_withEngine h fun engine' _ => keepsSound_of_engines_eq h rfl rfl rfl
  | save number slot =>
    exact keepsSound_withEngine h fun engine _ => keepsSound_of_engines_eq h rfl rfl rfl
  | restore number slot =>
    cases hget : session.snapshots.get? slot with
    | none =>
      exact keepsSound_of_engines_eq h (perform_restore_run_of_none hget number) rfl rfl
    | some snapshot =>
      obtain ⟨reply, session', hact, h', hfault⟩ := keepsSound_act h number (.restore snapshot)
      have hrun := (perform_restore_run_of_some hget number).trans hact
      exact ⟨reply, session', hrun, h', hfault⟩
  | mix mixer a b => exact keepsSound_of_engines_eq h rfl rfl rfl
  | clockSeed mixer reading => exact keepsSound_of_engines_eq h rfl rfl rfl
  | count mixer => exact keepsSound_of_engines_eq h rfl rfl rfl
  | describeMixer mixer => exact keepsSound_of_engines_eq h rfl rfl rfl
  | showWall reading => exact keepsSound_of_engines_eq h rfl rfl rfl

theorem Sound.run {session : Session} (h : session.Sound) (commands : List Command) :
    ∃ replies session', (run commands).run session = (replies, session') ∧ session'.Sound ∧
      List.Forall₂ (fun command reply =>
        ∀ fault, reply.fault? = some fault → command.fault? = some fault) commands replies := by
  induction commands generalizing session with
  | nil => exact ⟨[], session, rfl, h, .nil⟩
  | cons command commands ih =>
    obtain ⟨reply, session', hrun, h', hfault⟩ := h.perform command
    obtain ⟨replies, session'', hruns, h'', hfaults⟩ := ih h'
    exact ⟨reply :: replies, session'', run_mapM_cons hrun hruns, h'', .cons hfault hfaults⟩

end Session

/-! ## Safety -/

/-- What a caller may count on: the cursor and the words that remain say the same, both stay
    within the block, and a draw counts down without overflow and then finds a word. If it has to
    regenerate the block first, this cannot fail: `Block.successor` and `Block.far` read places of
    the block only, by their types. -/
structure Engine.Safe (engine : Engine) : Prop where
  cursor_le : engine.cursor ≤ 624
  remaining_eq : engine.remaining.toInt = 624 - engine.cursor
  remaining_nonneg : 0 ≤ engine.remaining.toInt
  remaining_le : engine.remaining.toInt ≤ 624
  prepare_eq : ∃ prepared, engine.prepare = .ok prepared ∧ prepared.cursor < 624

theorem Engine.InStep.safe {engine : Engine} (h : engine.InStep) : engine.Safe := by
  have hcursor := h.cursor_le
  have hremaining : engine.remaining.toInt = ((624 - engine.cursor : Nat) : Int) := by
    rw [h.remaining_eq]
    exact Int32.toInt_ofNat_of_lt (by omega)
  refine ⟨hcursor, by omega, by omega, by omega, ?_⟩
  rcases Nat.lt_or_eq_of_le hcursor with hc | hc
  · exact ⟨_, prepare_of_lt hc h.remaining_eq, hc⟩
  · -- No word remains, and counting down from `0` is what asks for a new block.
    have hr : engine.remaining = 0 := by
      rw [h.remaining_eq, hc]
      rfl
    rw [prepare_of_eq hr]
    exact ⟨_, prepare_of_lt (Nat.zero_lt_succ _) rfl, Nat.zero_lt_succ _⟩

/-- Whatever is done with the engines there can be, they stay safe, and only looking at a word of
    no place is a fault. -/
theorem runs_safe :
    (∀ engine : Engine, engine.Reachable → ∀ actions entropy, ∃ replies engine' entropy',
      ((Action.run actions).run engine).run entropy = ((replies, engine'), entropy') ∧
      engine'.Safe ∧ replies.map Reply.fault? = actions.map Action.fault?) ∧
    ∀ commands, ∃ replies session,
      (Session.run commands).run {} = (replies, session) ∧
      (∀ number engine, session.engines.get? number = some engine → engine.Safe) ∧
      List.Forall₂ (fun command reply =>
        ∀ fault, reply.fault? = some fault → command.fault? = some fault) commands replies := by
  refine ⟨fun engine h actions entropy => ?_, fun commands => ?_⟩
  · obtain ⟨replies, engine', entropy', hrun, h', hfaults⟩ := h.inStep.run actions entropy
    exact ⟨replies, engine', entropy', hrun, h'.safe, hfaults⟩
  · obtain ⟨replies, session, hrun, h', hfaults⟩ := Session.sound_empty.run commands
    exact ⟨replies, session, hrun, fun number engine hn => (h' number engine hn).inStep.safe,
      hfaults⟩

/-- An engine is seeded, loses its seed to a restored snapshot, draws a long word of which one half
    comes of the next block, and then has its words looked at, up to the last one. -/
theorem runs_safe_two_blocks :
    (Engine.ofBytes #v[1, 0, 0, 0]).Reachable ∧ ∃ replies engine entropy,
      ((Action.run [.restore ⟨.replicate 624 1, 623⟩, .draw .long, .word 623, .word 624]).run
        (.ofBytes #v[1, 0, 0, 0])).run {} = ((replies, engine), entropy) ∧
      engine.Safe ∧
      replies.map Reply.fault? = [none, none, none, some (.indexOutOfBounds 624 624)] := by
  have h : (Engine.ofBytes #v[1, 0, 0, 0]).Reachable := .createdOfBytes _
  exact ⟨h, runs_safe.1 _ h
    [.restore ⟨.replicate 624 1, 623⟩, .draw .long, .word 623, .word 624] {}⟩

end Twister
