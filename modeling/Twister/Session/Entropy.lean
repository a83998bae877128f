import Std.Data.ExtHashMap
import Twister.Seed.Basic

/-!
# Entropy

What engines are seeded from besides given seeds: the wall clock and the mixers. One mixer is
shared by all seeding from the wall clock; others are one's own, which are numbered and are new when
they are first used. Whatever takes a mixer takes any of them by its name (`MixerName`).

Mixers, engines and snapshots are kept on *shelves*, under numbers, at most one under each. A
shelf is known by what is found under the numbers (`Shelf.ext_get?`); the order in which values
were put there leaves no trace.

* `get?_put`: what is found after a value was put on the shelf;
* `put_eq_of_get?`: putting a value where it is already;
* `mixer_putMixer`, `useMixer_run`: using a mixer leaves the others alone;
* `useShared_run`: using the shared mixer with what the wall clock shows.
-/

namespace Twister

/-! ## Shelves -/

/-- Values under numbers. -/
structure Shelf (α : Type) where
  /-- The values by their numbers. -/
  values : Std.ExtHashMap Nat α := ∅

namespace Shelf

variable {α : Type}

/-- The value under a number. -/
def get? (shelf : Shelf α) (number : Nat) : Option α :=
  shelf.values[number]?

/-- Putting a value under a number, in the place of the one that was there. -/
def put (shelf : Shelf α) (number : Nat) (value : α) : Shelf α :=
  { values := shelf.values.insert number value }

@[simp]
theorem get?_empty (number : Nat) : ({} : Shelf α).get? number = none := by
  simp [get?]

theorem get?_put (shelf : Shelf α) (number n : Nat) (value : α) :
    (shelf.put number value).get? n = if number = n then some value else shelf.get? n := by
  simp [get?, put, Std.ExtHashMap.getElem?_insert]

theorem ext_get? {shelf shelf' : Shelf α} (h : ∀ n, shelf.get? n = shelf'.get? n) :
    shelf = shelf' := by
  cases shelf
  cases shelf'
  congr
  exact Std.ExtHashMap.ext_getElem? fun {n} => h n

/-- Putting a value where it is already changes nothing. -/
theorem put_eq_of_get? {shelf : Shelf α} {number : Nat} {value : α}
    (h : shelf.get? number = some value) : shelf.put number value = shelf := by
  refine ext_get? fun n => ?_
  rw [get?_put]
  split
  · next hn => rw [← hn, h]
  · rfl

end Shelf

/-! ## Clock and mixers -/

/-- The mixers there are. -/
inductive MixerName
  /-- The mixer that all seeding from the wall clock shares. -/
  | shared
  /-- The mixer of a number. -/
  | own (number : Nat)
  deriving DecidableEq, Repr

/-- The state of all that seeds are made from. -/
structure Entropy where
  /-- What the wall clock shows. -/
  wall : Reading := { seconds := 0, ticks := 0 }
  /-- The mixer shared by all seeding from the wall clock. -/
  shared : Mixer := {}
  /-- The numbered mixers that have been used. -/
  own : Shelf Mixer := {}

namespace Entropy

/-- The mixer of a name. -/
def mixer (entropy : Entropy) : MixerName → Mixer
  | .shared => entropy.shared
  | .own number => (entropy.own.get? number).getD {}

/-- Putting a mixer in the place of the one of a name. -/
def putMixer (entropy : Entropy) (name : MixerName) (mixer : Mixer) : Entropy :=
  match name with
  | .shared => { entropy with shared := mixer }
  | .own number => { entropy with own := entropy.own.put number mixer }

/-- Using the mixer of a name. -/
def useMixer {α : Type} (name : MixerName) (use : StateM Mixer α) : StateM Entropy α :=
  modifyGet fun entropy =>
    let (answer, mixer) := use.run (entropy.mixer name)
    (answer, entropy.putMixer name mixer)

/-- Using what the wall clock shows and the shared mixer. -/
def useShared {α : Type} (use : Reading → StateM Mixer α) : StateM Entropy α := do
  useMixer .shared (use (← get).wall)

theorem mixer_putMixer (entropy : Entropy) (name name' : MixerName) (mixer : Mixer) :
    (entropy.putMixer name mixer).mixer name' =
      if name = name' then mixer else entropy.mixer name' := by
  cases name with
  | shared =>
    cases name' with
    | shared => rfl
    | own n => rfl
  | own number =>
    cases name' with
    | shared => rfl
    | own n =>
      simp only [putMixer, Entropy.mixer, Shelf.get?_put, MixerName.own.injEq]
      split
      · rfl
      · rfl

theorem useMixer_run {α : Type} {name : MixerName} {use : StateM Mixer α} {entropy : Entropy}
    {answer : α} {mixer : Mixer} (h : use.run (entropy.mixer name) = (answer, mixer)) :
    (useMixer name use).run entropy = (answer, entropy.putMixer name mixer) := by
  simp only [useMixer, StateT.run_modifyGet, h]
  rfl

theorem useShared_run {α : Type} {use : Reading → StateM Mixer α} {entropy : Entropy}
    {answer : α} {mixer : Mixer} (h : (use entropy.wall).run entropy.shared = (answer, mixer)) :
    (useShared use).run entropy = (answer, entropy.putMixer .shared mixer) := by
  simp only [useShared, StateT.run_bind, StateT.run_get, pure_bind]
  exact useMixer_run h

end Entropy

end Twister
