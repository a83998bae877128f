import Twister.Session.Action

/-!
# Sessions

A *session* keeps any number of engines and saved snapshots under numbers, together with the
entropy that its engines are seeded from. A `Command` makes, uses or compares engines, or
uses a mixer. It changes the engines and the mixer it names, and the shared mixer if it seeds
from the wall clock, but nothing else. Commands are carried out one by one (`Session.perform`),
and a list of them from left to right (`Session.run`).
-/

namespace Twister

/-- Numbered engines and snapshots, and what engines are seeded from. -/
structure Session where
  /-- The engines. -/
  engines : Shelf Engine := {}
  /-- The saved snapshots. -/
  snapshots : Shelf Snapshot := {}
  /-- What engines are seeded from. -/
  entropy : Entropy := {}

/-- An operation of a session. The number given first is that of the engine concerned; an engine
    that is made replaces one of the same number. -/
inductive Command
  /-- Making an engine, seeded with a word, or from the wall clock if the word asks for that. -/
  | create (engine : Nat) (w : Word)
  /-- Making an engine, with a seed of the given origin. -/
  | createFrom (engine : Nat) (origin : SeedOrigin)
  /-- Making an engine, seeded with the word of four bytes. -/
  | createOfBytes (engine : Nat) (bytes : Vector UInt8 4)
  /-- Making an engine, seeded with bytes drawn from a parent. It answers where this leaves the
      cursor of the parent, also where the new engine takes the place of its parent. -/
  | spawn (engine parent : Nat)
  /-- Making a copy of an engine under another number. -/
  | clone (engine target : Nat)
  /-- Doing something with an engine. -/
  | act (engine : Nat) (action : Action)
  /-- Comparing two engines. -/
  | compare (engine other : Nat)
  /-- Saving a snapshot of an engine. -/
  | save (engine slot : Nat)
  /-- Restoring an engine from a saved snapshot. -/
  | restore (engine slot : Nat)
  /-- Mixing two words. -/
  | mix (mixer : MixerName) (a b : Word)
  /-- Making a seed from the reading of a clock. -/
  | clockSeed (mixer : MixerName) (reading : Reading)
  /-- Looking at the number of uses of a mixer. -/
  | count (mixer : MixerName)
  /-- Describing a mixer. -/
  | describeMixer (mixer : MixerName)
  /-- The wall clock comes to show a reading. -/
  | showWall (reading : Reading)

namespace Session

/-- Using the entropy of a session. -/
def useEntropy {α : Type} (use : StateM Entropy α) : StateM Session α :=
  modifyGet fun session =>
    let (answer, entropy) := use.run session.entropy
    (answer, { session with entropy })

/-- Putting an engine under a number. -/
def put (number : Nat) (engine : Engine) : StateM Session Unit :=
  modify fun session => { session with engines := session.engines.put number engine }

/-- Continuing with the engine of a number, if there is one. -/
def withEngine (number : Nat) (use : Engine → StateM Session Reply) : StateM Session Reply := do
  match (← get).engines.get? number with
  | some engine => use engine
  | none => return .absent

/-- Performing an action on the engine of a number. -/
def act (number : Nat) (action : Action) : StateM Session Reply :=
  withEngine number fun engine => do
    let (reply, engine) ← useEntropy (action.perform.run engine)
    put number engine
    return reply

/-- Carrying out a command. -/
def perform : Command → StateM Session Reply
  | .create number w => do
    put number (← useEntropy (Entropy.useShared (Engine.ofWord · w)))
    return .done
  | .createFrom number origin => do
    put number (← useEntropy (Entropy.useShared (Engine.ofOrigin · origin)))
    return .done
  | .createOfBytes number bytes => do
    put number (.ofBytes bytes)
    return .done
  | .spawn number parent =>
    withEngine parent fun engine => do
      match Engine.ofParent.run engine with
      | .ok (child?, engine) =>
        put parent engine
        if let some child := child? then put number child
        return .cursor engine.cursor
      | .error fault => return .fault fault
  | .clone number target =>
    withEngine number fun engine => do
      put target engine
      return .done
  | .act number action => act number action
  | .compare number other =>
    withEngine number fun engine =>
      withEngine other fun engine' => return .truth (engine = engine')
  | .save number slot =>
    withEngine number fun engine => do
      modify fun session =>
        { session with snapshots := session.snapshots.put slot engine.snapshot }
      return .done
  | .restore number slot => do
    match (← get).snapshots.get? slot with
    | some snapshot => act number (.restore snapshot)
    | none => return .absent
  | .mix mixer a b =>
    .mixed <$> useEntropy (Entropy.useMixer mixer (Mixer.mix a b))
  | .clockSeed mixer reading =>
    .mixed <$> useEntropy (Entropy.useMixer mixer (Mixer.seed reading))
  | .count mixer => return .mixed ((← get).entropy.mixer mixer).count
  | .describeMixer mixer => return .described ((← get).entropy.mixer mixer).description
  | .showWall reading => do
    useEntropy (modify fun entropy => { entropy with wall := reading })
    return .done

/-- Carrying out commands from left to right. -/
def run (commands : List Command) : StateM Session (List Reply) :=
  commands.mapM perform

end Session

end Twister
