import Twister.Draw.Call
import Twister.Engine.Seeding
import Twister.Engine.Snapshot
import Twister.Session.Entropy

/-!
# Actions

All that can be done with one engine, as data: an `Action` names an operation with its
arguments, and a `Reply` holds what came of it. An action is performed on an engine and the
entropy around it (`Action.perform`), of which only the actions that seed take anything. An
action that ends in a fault, or restores a snapshot that is rejected, leaves both as they were.
The actions that look at the block and at the cursor answer the two parts of a snapshot.
-/

namespace Twister

/-- What came of an operation. -/
inductive Reply
  /-- The operation answers nothing. -/
  | done
  /-- What was drawn or looked up. -/
  | answer (answer : Answer)
  /-- The words of a block. -/
  | words (words : List Word)
  /-- The place of the next word. -/
  | cursor (cursor : Nat)
  /-- What a mixer answers: a word made of two others, or the number of its uses. -/
  | mixed (w : Word)
  /-- Whether two engines are equal. -/
  | truth (b : Bool)
  /-- The description of a value. -/
  | described (description : Description)
  /-- The snapshot was rejected. -/
  | rejected (error : RestoreError)
  /-- The operation has no answer. -/
  | fault (fault : Fault)
  /-- There is no engine or snapshot of the number given. -/
  | absent

/-- An operation on one engine, with its arguments. -/
inductive Action
  /-- Drawing from the engine. -/
  | draw (call : Call)
  /-- Seeding with a word, or from the wall clock if the word asks for that. -/
  | reseedByWord (w : Word)
  /-- Seeding with a seed of the given origin. -/
  | reseedFrom (origin : SeedOrigin)
  /-- Seeding from the reading of a clock, by a mixer. -/
  | reseedByClock (reading : Reading) (mixer : MixerName)
  /-- Restoring a snapshot. -/
  | restore (snapshot : Snapshot)
  /-- Looking at a word of the current block. -/
  | word (i : Nat)
  /-- Looking at the current block. -/
  | words
  /-- Looking at the cursor. -/
  | cursor
  /-- Describing the engine. -/
  | describe

namespace Action

/-- Performing an action on an engine. -/
def perform : Action → StateT Engine (StateM Entropy) Reply
  | draw call => do
    match call.perform.run (← get) with
    | .ok (answer, engine) =>
      set engine
      return .answer answer
    | .error fault => return .fault fault
  | reseedByWord w => do
    let engine ← get
    set (← Entropy.useShared (engine.reseedByWord · w))
    return .done
  | reseedFrom origin => do
    let engine ← get
    set (← Entropy.useShared (engine.reseedFrom · origin))
    return .done
  | reseedByClock reading mixer => do
    let engine ← get
    set (← Entropy.useMixer mixer (engine.reseedByClock reading))
    return .done
  | restore snapshot => do
    match snapshot.restore? with
    | .ok engine =>
      set engine
      return .done
    | .error error => return .rejected error
  | word i => do
    match (← get).word i with
    | .ok w => return .answer (.word w)
    | .error fault => return .fault fault
  | words => do return .words (← get).snapshot.words
  | cursor => do return .cursor (← get).snapshot.cursor
  | describe => do return .described (← get).description

end Action

end Twister
