import Twister.Proofs.Seed.Counting
import Twister.Proofs.Session.Command

/-!
# Uses of mixers

A session has many mixers, and each keeps an account of its own: of all that is done in a run, the
word made by a use of a mixer depends on the two words mixed, and on how often this mixer was used
before. Which commands use a mixer is read off them (`Command.use?`), without carrying them out.
They use one mixer, once: the shared one if they seed from the wall clock, and else the one they are
given, which may be the shared one too. All others leave every mixer alone, among them the seeding
with a given word, be it the one that asks for the clock where only a word can be passed.

* `Action.use?_reseedByWord`: which words ask for the clock;
* `Entropy.Counts`: the mixers after some uses;
* `Session.perform_accounts`, `Session.run_counts`: the uses of a command and of a run;
* `mixer_uses_counted`: the word made by any use in any run.
-/

namespace Twister

/-- A use of a mixer. -/
structure MixerUse where
  /-- The mixer. -/
  mixer : MixerName
  /-- The first of the words mixed, to which the count is added. -/
  a : Word
  /-- The second of the words mixed. -/
  b : Word
  deriving DecidableEq, Repr

namespace MixerName

/-- How many of some uses are those of a mixer. -/
def count (name : MixerName) (uses : List MixerUse) : Nat :=
  uses.countP fun use => use.mixer = name

theorem count_singleton (name : MixerName) (use : MixerUse) :
    name.count [use] = if use.mixer = name then 1 else 0 := by
  simp [count, List.countP_cons]

end MixerName

/-! ## What uses a mixer -/

/-- The use that an action takes. Where it is not given the shared mixer, it uses this one only to
    seed with the word that asks for the clock, or from the clock. -/
def Action.use? (wall : Reading) : Action → Option MixerUse
  | reseedByWord w => if w = 0xffffffff then some ⟨.shared, wall.seconds, wall.ticks⟩ else none
  | reseedFrom .clock => some ⟨.shared, wall.seconds, wall.ticks⟩
  | reseedByClock reading mixer => some ⟨mixer, reading.seconds, reading.ticks⟩
  | _ => none

/-- The use that a command takes. An engine is seeded where it is made as where it is already. To
    act on an engine, there must be one of the number. -/
def Command.use? (session : Session) : Command → Option MixerUse
  | create _ w => (Action.reseedByWord w).use? session.entropy.wall
  | createFrom _ origin => (Action.reseedFrom origin).use? session.entropy.wall
  | act number action =>
    if (session.engines.get? number).isSome then action.use? session.entropy.wall else none
  | mix mixer a b => some ⟨mixer, a, b⟩
  | clockSeed mixer reading => some ⟨mixer, reading.seconds, reading.ticks⟩
  | _ => none

/-- Where the word made by a command shows: it is the answer, or the seed of an engine. -/
def Command.Shows (w : Word) (reply : Reply) (session : Session) : Command → Prop
  | mix _ _ _ | clockSeed _ _ => reply = .mixed w
  | create number _ | createFrom number _ | act number _ =>
    reply = .done ∧ session.engines.get? number = some (.ofSeed w)
  | _ => False

/-- The uses that commands take, carried out from left to right. -/
def Session.uses : List Command → Session → List MixerUse
  | [], _ => []
  | command :: commands, session =>
    (command.use? session).toList ++ uses commands ((perform command).run session).2

/-- Seeding with a word takes the use of the origin that the word asks for. -/
theorem Action.use?_reseedByWord (wall : Reading) (w : Word) :
    (reseedByWord w).use? wall = (reseedFrom (.ofWord w)).use? wall := by
  by_cases h : w = 0xffffffff
  · rw [SeedOrigin.ofWord_eq_clock_iff.2 h]
    exact if_pos h
  · rw [SeedOrigin.ofWord_of_ne h]
    exact if_neg h

/-! ## Entropy after uses -/

namespace Entropy

variable {entropy entropy' entropy'' : Entropy}

/-- What a use of a mixer makes. -/
def made (entropy : Entropy) (use : MixerUse) : Word :=
  Mixer.value use.a use.b (entropy.mixer use.mixer).count

/-- Every mixer has counted its own ones of some uses. -/
def Counts (entropy entropy' : Entropy) (uses : List MixerUse) : Prop :=
  ∀ name, entropy'.mixer name = (entropy.mixer name).advance (name.count uses)

theorem counts_nil (h : ∀ name, entropy'.mixer name = entropy.mixer name) :
    entropy.Counts entropy' [] :=
  fun name => (h name).trans (Mixer.advance_zero _).symm

theorem Counts.append {uses uses' : List MixerUse} (h : entropy.Counts entropy' uses)
    (h' : entropy'.Counts entropy'' uses') : entropy.Counts entropy'' (uses ++ uses') := by
  intro name
  rw [h' name, h name, Mixer.advance_advance, MixerName.count, MixerName.count, MixerName.count,
    List.countP_append]

theorem counts_putMixer (entropy : Entropy) (name : MixerName) (a b : Word) :
    entropy.Counts (entropy.putMixer name ((entropy.mixer name).advance 1)) [⟨name, a, b⟩] := by
  intro name'
  rw [MixerName.count_singleton, mixer_putMixer]
  split
  · next h => rw [h]
  · rw [Mixer.advance_zero]

/-- Seeding from an origin takes the use of the origin, and seeds with what this makes. -/
theorem useShared_reseedFrom_run (engine : Engine) (origin : SeedOrigin) (entropy : Entropy) :
    ∃ seed entropy', (useShared (engine.reseedFrom · origin)).run entropy =
        (.ofSeed seed, entropy') ∧
      entropy.Counts entropy' ((Action.reseedFrom origin).use? entropy.wall).toList ∧
      ∀ use ∈ (Action.reseedFrom origin).use? entropy.wall, seed = entropy.made use := by
  cases origin with
  | given seed => exact ⟨seed, entropy, rfl, counts_nil fun _ => rfl, nofun⟩
  | clock =>
    refine ⟨_, _, rfl, counts_putMixer entropy .shared _ _, ?_⟩
    rintro use ⟨⟩
    rfl

end Entropy

namespace Action

theorem perform_reseedFrom_counts (origin : SeedOrigin) (engine : Engine) (entropy : Entropy) :
    ∃ reply engine' entropy',
      ((reseedFrom origin).perform.run engine).run entropy = ((reply, engine'), entropy') ∧
      entropy.Counts entropy' ((reseedFrom origin).use? entropy.wall).toList ∧
      ∀ use ∈ (reseedFrom origin).use? entropy.wall,
        reply = .done ∧ engine' = .ofSeed (entropy.made use) := by
  obtain ⟨seed, entropy', hrun, hcounts, hseed⟩ := entropy.useShared_reseedFrom_run engine origin
  refine ⟨_, _, entropy', perform_reseedFrom_run_of_useShared hrun, hcounts, fun use huse => ?_⟩
  exact ⟨rfl, congrArg Engine.ofSeed (hseed use huse)⟩

/-- An action takes the use it asks for, and seeds the engine with what this makes. -/
theorem perform_counts (action : Action) (engine : Engine) (entropy : Entropy) :
    ∃ reply engine' entropy',
      (action.perform.run engine).run entropy = ((reply, engine'), entropy') ∧
      entropy.Counts entropy' (action.use? entropy.wall).toList ∧
      ∀ use ∈ action.use? entropy.wall,
        reply = .done ∧ engine' = .ofSeed (entropy.made use) := by
  have hnone : entropy.Counts entropy [] := Entropy.counts_nil fun _ => rfl
  cases action with
  | draw call =>
    cases hcall : call.perform.run engine with
    | ok drawn => exact ⟨_, _, _, perform_draw_run hcall, hnone, nofun⟩
    | error fault => exact ⟨_, _, _, perform_draw_run_of_error hcall, hnone, nofun⟩
  | reseedByWord w =>
    rw [use?_reseedByWord]
    exact perform_reseedFrom_counts (.ofWord w) engine entropy
  | reseedFrom origin => exact perform_reseedFrom_counts origin engine entropy
  | reseedByClock reading mixer =>
    refine ⟨_, _, _, rfl, Entropy.counts_putMixer entropy mixer _ _, ?_⟩
    rintro use ⟨⟩
    exact ⟨rfl, rfl⟩
  | restore snapshot =>
    cases hs : snapshot.restore? with
    | ok engine' => exact ⟨_, _, _, perform_restore_run hs, hnone, nofun⟩
    | error error => exact ⟨_, _, _, perform_restore_run_of_error hs, hnone, nofun⟩
  | word i =>
    obtain ⟨reply, hrun, -⟩ := perform_word_run i
    exact ⟨reply, _, _, hrun, hnone, nofun⟩
  | words => exact ⟨_, _, _, rfl, hnone, nofun⟩
  | cursor => exact ⟨_, _, _, rfl, hnone, nofun⟩
  | describe => exact ⟨_, _, _, rfl, hnone, nofun⟩

end Action

/-! ## Sessions -/

namespace Session

/-- Carrying out `m` takes a use, if any, and what this makes shows in the end. -/
def Accounts (m : StateM Session Reply) (use? : Option MixerUse)
    (shows : Word → Reply → Session → Prop) (session : Session) : Prop :=
  ∃ reply session', m.run session = (reply, session') ∧
    session.entropy.Counts session'.entropy use?.toList ∧
    ∀ use ∈ use?, shows (session.entropy.made use) reply session'

/-- What leaves the mixers alone takes no use, and nothing has to show. -/
theorem accounts_none {session session' : Session} {m : StateM Session Reply} {reply : Reply}
    {shows : Word → Reply → Session → Prop} (hrun : m.run session = (reply, session'))
    (h : ∀ name, session'.entropy.mixer name = session.entropy.mixer name) :
    Accounts m none shows session :=
  ⟨reply, session', hrun, Entropy.counts_nil h, nofun⟩

theorem accounts_of_keepsEntropy {session : Session} {m : StateM Session Reply}
    {shows : Word → Reply → Session → Prop} (h : KeepsEntropy m session) :
    Accounts m none shows session := by
  obtain ⟨reply, session', hrun, hentropy, -⟩ := h
  exact accounts_none hrun fun name => by rw [hentropy]

theorem accounts_act (session : Session) (number : Nat) (action : Action) :
    Accounts (act number action) ((Command.act number action).use? session)
      (fun w reply session => (Command.act number action).Shows w reply session) session := by
  cases hget : session.engines.get? number with
  | none =>
    rw [Command.use?, hget]
    exact accounts_none (act_run_of_none hget action) fun _ => rfl
  | some engine =>
    obtain ⟨reply, engine', entropy', hrun, hcounts, hseeds⟩ :=
      action.perform_counts engine session.entropy
    rw [Command.use?, hget]
    refine ⟨reply, _, act_run_of_some hget hrun, hcounts, fun use huse => ?_⟩
    obtain ⟨hreply, rfl⟩ := hseeds use huse
    exact ⟨hreply, by rw [Shelf.get?_put, if_pos rfl]⟩

theorem accounts_createFrom (session : Session) (number : Nat) (origin : SeedOrigin) :
    Accounts (perform (.createFrom number origin)) ((Command.createFrom number origin).use? session)
      (fun w reply session => reply = .done ∧ session.engines.get? number = some (.ofSeed w))
      session := by
  obtain ⟨seed, entropy', hshared, hcounts, hseed⟩ :=
    session.entropy.useShared_reseedFrom_run .blank origin
  have hmade : (Entropy.useShared (Engine.ofOrigin · origin)).run session.entropy =
      (.ofSeed seed, entropy') := hshared
  have hrun : (perform (.createFrom number origin)).run session =
      (.done, { session with
        engines := session.engines.put number (.ofSeed seed), entropy := entropy' }) := by
    rw [perform, StateT.run_bind, useEntropy_run hmade]
    rfl
  refine ⟨_, _, hrun, hcounts, fun use huse => ⟨rfl, ?_⟩⟩
  rw [Shelf.get?_put, if_pos rfl, hseed use huse]

theorem perform_accounts (command : Command) (session : Session) :
    Accounts (perform command) (command.use? session)
      (fun w reply session => command.Shows w reply session) session := by
  cases command with
  | create number w =>
    rw [Command.use?, Action.use?_reseedByWord]
    exact accounts_createFrom session number (.ofWord w)
  | createFrom number origin => exact accounts_createFrom session number origin
  | act number action => exact accounts_act session number action
  | restore number slot =>
    cases hget : session.snapshots.get? slot with
    | none => exact accounts_none (perform_restore_run_of_none hget number) fun _ => rfl
    | some snapshot =>
      have huse : (Command.act number (.restore snapshot)).use? session = none := ite_self none
      obtain ⟨reply, session', hrun, hcounts, -⟩ := accounts_act session number (.restore snapshot)
      rw [huse] at hcounts
      exact ⟨reply, session', (perform_restore_run_of_some hget number).trans hrun, hcounts, nofun⟩
  | mix mixer a b =>
    refine ⟨_, _, rfl, Entropy.counts_putMixer session.entropy mixer a b, ?_⟩
    rintro use ⟨⟩
    rfl
  | clockSeed mixer reading =>
    refine ⟨_, _, rfl, Entropy.counts_putMixer session.entropy mixer _ _, ?_⟩
    rintro use ⟨⟩
    rfl
  | showWall reading => exact accounts_none rfl fun _ => rfl
  | _ => exact accounts_of_keepsEntropy (perform_keepsEntropy (by trivial) session)

/-- After a run, every mixer has counted its own uses. -/
theorem run_counts (commands : List Command) (session : Session) :
    ∃ replies session', (run commands).run session = (replies, session') ∧
      session.entropy.Counts session'.entropy (uses commands session) := by
  induction commands generalizing session with
  | nil => exact ⟨[], session, rfl, Entropy.counts_nil fun _ => rfl⟩
  | cons command commands ih =>
    obtain ⟨reply, session', hrun, hcounts, -⟩ := perform_accounts command session
    obtain ⟨replies, session'', hruns, hcounts'⟩ := ih session'
    refine ⟨reply :: replies, session'', run_mapM_cons hrun hruns, ?_⟩
    rw [uses, hrun]
    exact hcounts.append hcounts'

/-- The number of uses of a mixer is looked at without using it. -/
theorem perform_count_run (name : MixerName) (session : Session) :
    (perform (.count name)).run session =
      (.mixed (session.entropy.mixer name).count, session) := rfl

end Session

/-! ## The words made -/

theorem Mixer.toNat_count_advance (n : Nat) :
    (Mixer.advance n {}).count.toNat = n % UInt32.size := by
  rw [count_advance, UInt32.zero_add, UInt32.toNat_ofNat']

theorem Entropy.mixer_empty (name : MixerName) : ({} : Entropy).mixer name = {} := by
  cases name with
  | shared => rfl
  | own number => rw [mixer, Shelf.get?_empty, Option.getD_none]

/-- In any run, a use of a mixer makes a word of the two words mixed and of the number of its
    earlier uses, counts the use, and leaves all other mixers alone. What takes no use leaves all
    of them alone. -/
theorem mixer_uses_counted (commands : List Command) :
    ∃ replies session, (Session.run commands).run {} = (replies, session) ∧
      ∀ command, ∃ reply session', (Session.perform command).run session = (reply, session') ∧
        (command.use? session = none →
          ∀ name, session'.entropy.mixer name = session.entropy.mixer name) ∧
        ∀ use ∈ command.use? session, ∃ w count,
          command.Shows w reply session' ∧
          w.toNat = use.b.digitValue % UInt32.size ^^^
            (use.a.digitValue + use.mixer.count (Session.uses commands {})) % UInt32.size ∧
          (Session.perform (.count use.mixer)).run session' = (.mixed count, session') ∧
          count.toNat = (use.mixer.count (Session.uses commands {}) + 1) % UInt32.size ∧
          ∀ name, name ≠ use.mixer →
            session'.entropy.mixer name = session.entropy.mixer name := by
  obtain ⟨replies, session, hrun, hbefore⟩ := Session.run_counts commands {}
  refine ⟨replies, session, hrun, fun command => ?_⟩
  obtain ⟨reply, session', hperform, hcounts, hshows⟩ := Session.perform_accounts command session
  refine ⟨reply, session', hperform, fun hnone name => ?_, fun use huse => ?_⟩
  · rw [hcounts name, hnone]
    exact Mixer.advance_zero _
  · have hmixer := hbefore use.mixer
    rw [Entropy.mixer_empty] at hmixer
    have hafter (name : MixerName) : session'.entropy.mixer name =
        (session.entropy.mixer name).advance (if use.mixer = name then 1 else 0) := by
      rw [hcounts name, huse, ← MixerName.count_singleton]
      rfl
    refine ⟨_, _, hshows use huse, Mixer.toNat_value _ _ ?_,
      Session.perform_count_run use.mixer session', ?_, fun name hname => ?_⟩
    · rw [hmixer, Mixer.toNat_count_advance]
    · rw [hafter, if_pos rfl, hmixer, Mixer.advance_advance, Mixer.toNat_count_advance]
    · rw [hafter, if_neg (Ne.symm hname), Mixer.advance_zero]

/-- The second use of an own mixer and the third of the shared one, which are used in turn, by one
    pair of words; and the word that asks for the clock as a given seed, which takes no use. -/
theorem mixer_uses_counted_in_turn :
    ∃ replies session,
      (Session.run [.mix (.own 7) 0x12345678 0x9abcdef0, .create 0 0xffffffff,
        .mix .shared 1 2]).run {} = (replies, session) ∧
      (∃ reply session' w count,
        (Session.perform (.clockSeed (.own 7) ⟨0x12345678, 0x9abcdef0⟩)).run session =
          (reply, session') ∧
        reply = .mixed w ∧ w.toNat = 0x8a730231 ∧
        (Session.perform (.count (.own 7))).run session' = (.mixed count, session') ∧
        count.toNat = 2) ∧
      (∃ reply session' w count,
        (Session.perform (.mix .shared 0x12345678 0x9abcdef0)).run session = (reply, session') ∧
        reply = .mixed w ∧ w.toNat = 0x8a730232 ∧
        (Session.perform (.count .shared)).run session' = (.mixed count, session') ∧
        count.toNat = 3) ∧
      ∃ reply session',
        (Session.perform (.createFrom 1 (.given 0xffffffff))).run session = (reply, session') ∧
        ∀ name, session'.entropy.mixer name = session.entropy.mixer name := by
  obtain ⟨replies, session, hrun, hcommands⟩ :=
    mixer_uses_counted [.mix (.own 7) 0x12345678 0x9abcdef0, .create 0 0xffffffff, .mix .shared 1 2]
  have hown : MixerName.count (.own 7) (Session.uses
      [.mix (.own 7) 0x12345678 0x9abcdef0, .create 0 0xffffffff, .mix .shared 1 2] {}) = 1 := rfl
  have hshared : MixerName.count .shared (Session.uses
      [.mix (.own 7) 0x12345678 0x9abcdef0, .create 0 0xffffffff, .mix .shared 1 2] {}) = 2 := rfl
  refine ⟨replies, session, hrun, ?_, ?_, ?_⟩
  · obtain ⟨reply, session', hperform, -, hmade⟩ :=
      hcommands (.clockSeed (.own 7) ⟨0x12345678, 0x9abcdef0⟩)
    obtain ⟨w, count, hreply, hw, hcount, hvalue, -⟩ := hmade _ rfl
    rw [hown] at hw hvalue
    exact ⟨reply, session', w, count, hperform, hreply, hw, hcount, hvalue⟩
  · obtain ⟨reply, session', hperform, -, hmade⟩ :=
      hcommands (.mix .shared 0x12345678 0x9abcdef0)
    obtain ⟨w, count, hreply, hw, hcount, hvalue, -⟩ := hmade _ rfl
    rw [hshared] at hw hvalue
    exact ⟨reply, session', w, count, hperform, hreply, hw, hcount, hvalue⟩
  · obtain ⟨reply, session', hperform, hunchanged, -⟩ :=
      hcommands (.createFrom 1 (.given 0xffffffff))
    exact ⟨reply, session', hperform, hunchanged rfl⟩

end Twister
