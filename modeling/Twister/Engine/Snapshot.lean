import Twister.Engine.Basic

/-!
# Snapshots

A *snapshot* holds the words of an engine and its cursor, from which an engine is restored that
goes on in the same way. A snapshot may also come from elsewhere; it is rejected if it has not
624 words, or else if its cursor is past the last word by more than one. What remains to be
handed out is not kept, and is worked out from the cursor.

* `restore?_eq_ok_iff`: which snapshots are accepted, and what they restore;
* `restore?_of_length_ne`: the number of words is looked at first.
-/

namespace Twister

/-- The words of an engine and its cursor. -/
structure Snapshot where
  /-- The words. -/
  words : List Word
  /-- The place of the next word. -/
  cursor : Nat
  deriving DecidableEq, Repr

/-- Why a snapshot is rejected. -/
inductive RestoreError
  /-- The snapshot does not have the number of words of a block. -/
  | wrongLength (expected found : Nat)
  /-- The cursor is greater than the greatest one there is. -/
  | cursorPastEnd (cursor max : Nat)
  deriving DecidableEq, Repr

namespace RestoreError

/-- The error in words. -/
def message : RestoreError → String
  | wrongLength expected found => s!"state must hold {expected} words, got {found}"
  | cursorPastEnd cursor max => s!"cursor {cursor} is past the end of the state ({max})"

/-- The error described, with the two numbers it compares. -/
def description : RestoreError → Description
  | wrongLength expected found =>
    .record "StateLength" [("expected", .number expected), ("found", .number found)]
  | cursorPastEnd cursor max =>
    .record "CursorOutOfRange" [("cursor", .number cursor), ("max", .number max)]

/-- The error that led to this one: there is none. -/
def cause (_ : RestoreError) : Option RestoreError := none

end RestoreError

/-- The snapshot of an engine. -/
def Engine.snapshot (engine : Engine) : Snapshot :=
  { words := engine.words.toList, cursor := engine.cursor }

namespace Snapshot

/-- The engine that a snapshot restores. -/
def restore? (snapshot : Snapshot) : Except RestoreError Engine :=
  if h : snapshot.words.length = 624 then
    if snapshot.cursor ≤ 624 then
      .ok {
        words := ⟨snapshot.words.toArray, by simp [h]⟩
        cursor := snapshot.cursor
        remaining := .ofNat (624 - snapshot.cursor) }
    else .error (.cursorPastEnd snapshot.cursor Block.size)
  else .error (.wrongLength Block.size snapshot.words.length)

theorem restore?_of_length_ne {snapshot : Snapshot} (h : snapshot.words.length ≠ 624) :
    snapshot.restore? = .error (.wrongLength 624 snapshot.words.length) := by
  rw [restore?, dif_neg h, Block.size]

theorem restore?_eq_ok_iff {snapshot : Snapshot} {engine : Engine} :
    snapshot.restore? = .ok engine ↔
      snapshot.cursor ≤ 624 ∧ engine.snapshot = snapshot ∧
        engine.remaining = .ofNat (624 - engine.cursor) := by
  obtain ⟨ws, c⟩ := snapshot
  obtain ⟨⟨⟨bs⟩, hb⟩, c', r⟩ := engine
  constructor
  · intro h
    unfold restore? at h
    split at h
    · split at h
      · cases h
        simp_all [Engine.snapshot]
      · cases h
    · cases h
  · rintro ⟨hc, hs, hr⟩
    simp only [Engine.snapshot, Vector.toList_mk, mk.injEq] at hs
    obtain ⟨rfl, rfl⟩ := hs
    have : bs.length = 624 := by simpa using hb
    simp_all [restore?]

end Snapshot

end Twister
