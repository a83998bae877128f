import Twister.Proofs.Session.Command

/-!
# Rejected snapshots

Restoring a snapshot is the only operation that may be rejected, and it is rejected before anything
is written. So a rejection leaves no trace: a run without the rejected operations (`accepted`)
gives the same replies to the others, and ends in the same state. A snapshot that is accepted, on
the other hand, leaves nothing of what was before.

* `Snapshot.restore?_eq_error_iff`: which snapshots are rejected, and why;
* `Action.run_accepted`, `Session.run_accepted`: runs without what was rejected;
* `rejected_restores_invisible`: what callers may count on.
-/

namespace Twister

/-- Why a snapshot is rejected, if it is: for the number of its words, or else for its cursor. -/
def Snapshot.rejection? (snapshot : Snapshot) : Option RestoreError :=
  if snapshot.words.length ≠ 624 then some (.wrongLength 624 snapshot.words.length)
  else if 624 < snapshot.cursor then some (.cursorPastEnd snapshot.cursor 624)
  else none

/-- Why an action is rejected, if it is. -/
def Action.rejection? : Action → Option RestoreError
  | restore snapshot => snapshot.rejection?
  | _ => none

/-- The operations of a run that were not rejected, with their replies. -/
def accepted {α : Type} (operations : List α) (replies : List Reply) : List (α × Reply) :=
  (operations.zip replies).filter fun entry => entry.2.rejection?.isNone

theorem accepted_cons_of_none {α : Type} {operation : α} {operations : List α} {reply : Reply}
    {replies : List Reply} (h : reply.rejection? = none) :
    accepted (operation :: operations) (reply :: replies) =
      (operation, reply) :: accepted operations replies := by
  rw [accepted, List.zip_cons_cons, List.filter_cons_of_pos (by rw [h]; rfl), accepted]

theorem accepted_cons_of_some {α : Type} {operation : α} {operations : List α} {reply : Reply}
    {replies : List Reply} {error : RestoreError} (h : reply.rejection? = some error) :
    accepted (operation :: operations) (reply :: replies) = accepted operations replies := by
  rw [accepted, List.zip_cons_cons, List.filter_cons_of_neg (by rw [h]; simp), accepted]

/-! ## Actions -/

theorem Snapshot.restore?_eq_error_iff {snapshot : Snapshot} {error : RestoreError} :
    snapshot.restore? = .error error ↔ snapshot.rejection? = some error := by
  rw [rejection?]
  by_cases hlength : snapshot.words.length = 624
  · rw [restore?, dif_pos hlength, if_neg (not_not_intro hlength)]
    by_cases hcursor : snapshot.cursor ≤ 624
    · rw [if_pos hcursor, if_neg (Nat.not_lt.2 hcursor)]
      simp
    · rw [if_neg hcursor, if_pos (Nat.not_le.1 hcursor), Except.error.injEq, Option.some.injEq,
        Block.size]
  · rw [restore?_of_length_ne hlength, if_pos hlength, Except.error.injEq, Option.some.injEq]

theorem Snapshot.rejection?_of_restore?_eq_ok {snapshot : Snapshot} {engine : Engine}
    (h : snapshot.restore? = .ok engine) : snapshot.rejection? = none := by
  cases hrejection : snapshot.rejection? with
  | none => rfl
  | some error =>
    rw [restore?_eq_error_iff.2 hrejection] at h
    cases h

/-- A snapshot that is not rejected is restored to an engine of its own words and cursor. -/
theorem Snapshot.exists_restore?_eq_ok {snapshot : Snapshot} (h : snapshot.rejection? = none) :
    ∃ engine, snapshot.restore? = .ok engine := by
  cases hrestore : snapshot.restore? with
  | ok engine => exact ⟨engine, rfl⟩
  | error error =>
    rw [restore?_eq_error_iff.1 hrestore] at h
    cases h

namespace Action

/-- An action is rejected for the reason there is, and then it changes nothing. -/
theorem perform_rejection (action : Action) (engine : Engine) (entropy : Entropy) :
    ∃ reply engine' entropy',
      (action.perform.run engine).run entropy = ((reply, engine'), entropy') ∧
      reply.rejection? = action.rejection? ∧
      ∀ error, reply.rejection? = some error → engine' = engine ∧ entropy' = entropy := by
  cases action with
  | draw call =>
    cases hcall : call.perform.run engine with
    | ok drawn => exact ⟨_, _, _, perform_draw_run hcall, rfl, nofun⟩
    | error fault => exact ⟨_, _, _, perform_draw_run_of_error hcall, rfl, nofun⟩
  | reseedByWord w =>
    obtain ⟨seed, entropy', hrun⟩ := perform_reseedFrom_run (.ofWord w)
    exact ⟨_, _, _, hrun, rfl, nofun⟩
  | reseedFrom origin =>
    obtain ⟨seed, entropy', hrun⟩ := perform_reseedFrom_run origin
    exact ⟨_, _, _, hrun, rfl, nofun⟩
  | reseedByClock reading mixer => exact ⟨_, _, _, rfl, rfl, nofun⟩
  | restore snapshot =>
    cases hs : snapshot.restore? with
    | ok engine' =>
      exact ⟨_, _, _, perform_restore_run hs, (Snapshot.rejection?_of_restore?_eq_ok hs).symm,
        nofun⟩
    | error error =>
      exact ⟨_, _, _, perform_restore_run_of_error hs, (Snapshot.restore?_eq_error_iff.1 hs).symm,
        fun _ _ => ⟨rfl, rfl⟩⟩
  | word i =>
    cases hword : engine.word i with
    | ok w => exact ⟨_, _, _, perform_word_run_of_ok hword, rfl, nofun⟩
    | error fault => exact ⟨_, _, _, perform_word_run_of_error hword, rfl, nofun⟩
  | words => exact ⟨_, _, _, rfl, rfl, nofun⟩
  | cursor => exact ⟨_, _, _, rfl, rfl, nofun⟩
  | describe => exact ⟨_, _, _, rfl, rfl, nofun⟩

/-- A run without the rejected actions gives the same replies and ends in the same state. -/
theorem run_accepted (actions : List Action) (engine : Engine) (entropy : Entropy) :
    ∃ replies engine' entropy', ((run actions).run engine).run entropy =
        ((replies, engine'), entropy') ∧
      replies.map Reply.rejection? = actions.map rejection? ∧
      ((run ((accepted actions replies).map Prod.fst)).run engine).run entropy =
        (((accepted actions replies).map Prod.snd, engine'), entropy') := by
  induction actions generalizing engine entropy with
  | nil => exact ⟨[], engine, entropy, rfl, rfl, rfl⟩
  | cons action actions ih =>
    obtain ⟨reply, engine', entropy', hrun, hreply, hsame⟩ :=
      perform_rejection action engine entropy
    obtain ⟨replies, engine'', entropy'', hruns, hreplies, haccepted⟩ := ih engine' entropy'
    refine ⟨_, engine'', entropy'', run_cons_run hrun hruns, ?_, ?_⟩
    · rw [List.map_cons, List.map_cons, hreply, hreplies]
    · cases hrejection : reply.rejection? with
      | none =>
        rw [accepted_cons_of_none hrejection]
        exact run_cons_run hrun haccepted
      | some error =>
        -- The rest starts in the state that the rejected action was performed in.
        obtain ⟨rfl, rfl⟩ := hsame error hrejection
        rwa [accepted_cons_of_some hrejection]

end Action

/-! ## Sessions -/

namespace Session

/-- Carrying out `m` changes nothing if it is rejected. -/
def RejectsUnchanged (m : StateM Session Reply) (session : Session) : Prop :=
  ∃ reply session', m.run session = (reply, session') ∧
    ∀ error, reply.rejection? = some error → session' = session

/-- What is not rejected has nothing to keep. -/
theorem rejectsUnchanged_of_none {session session' : Session} {m : StateM Session Reply}
    {reply : Reply} (hrun : m.run session = (reply, session')) (h : reply.rejection? = none) :
    RejectsUnchanged m session := by
  refine ⟨reply, session', hrun, fun error herror => ?_⟩
  rw [h] at herror
  cases herror

theorem rejectsUnchanged_of_keepsEntropy {session : Session} {m : StateM Session Reply}
    (h : KeepsEntropy m session) : RejectsUnchanged m session := by
  obtain ⟨reply, session', hrun, -, hreply⟩ := h
  exact rejectsUnchanged_of_none hrun hreply

theorem rejectsUnchanged_act (session : Session) (number : Nat) (action : Action) :
    RejectsUnchanged (act number action) session := by
  cases hget : session.engines.get? number with
  | none => exact rejectsUnchanged_of_none (act_run_of_none hget action) rfl
  | some engine =>
    obtain ⟨reply, engine', entropy', hrun, -, hsame⟩ :=
      Action.perform_rejection action engine session.entropy
    refine ⟨reply, _, act_run_of_some hget hrun, fun error herror => ?_⟩
    obtain ⟨rfl, rfl⟩ := hsame error herror
    rw [Shelf.put_eq_of_get? hget]

theorem perform_rejectsUnchanged (command : Command) (session : Session) :
    RejectsUnchanged (perform command) session := by
  cases command with
  | create number w => exact rejectsUnchanged_of_none rfl rfl
  | createFrom number origin => exact rejectsUnchanged_of_none rfl rfl
  | act number action => exact rejectsUnchanged_act session number action
  | restore number slot =>
    cases hget : session.snapshots.get? slot with
    | none => exact rejectsUnchanged_of_none (perform_restore_run_of_none hget number) rfl
    | some snapshot =>
      obtain ⟨reply, session', hrun, h⟩ := rejectsUnchanged_act session number (.restore snapshot)
      exact ⟨reply, session', (perform_restore_run_of_some hget number).trans hrun, h⟩
  | mix mixer a b => exact rejectsUnchanged_of_none rfl rfl
  | clockSeed mixer reading => exact rejectsUnchanged_of_none rfl rfl
  | showWall reading => exact rejectsUnchanged_of_none rfl rfl
  | _ => exact rejectsUnchanged_of_keepsEntropy (perform_keepsEntropy (by trivial) session)

/-- A run without the rejected commands gives the same replies and ends in the same session. -/
theorem run_accepted (commands : List Command) (session : Session) :
    ∃ replies session', (run commands).run session = (replies, session') ∧
      (run ((accepted commands replies).map Prod.fst)).run session =
        ((accepted commands replies).map Prod.snd, session') := by
  induction commands generalizing session with
  | nil => exact ⟨[], session, rfl, rfl⟩
  | cons command commands ih =>
    obtain ⟨reply, session', hrun, hsame⟩ := perform_rejectsUnchanged command session
    obtain ⟨replies, session'', hruns, haccepted⟩ := ih session'
    refine ⟨_, session'', run_mapM_cons hrun hruns, ?_⟩
    cases hrejection : reply.rejection? with
    | none =>
      rw [accepted_cons_of_none hrejection]
      exact run_mapM_cons hrun haccepted
    | some error =>
      obtain rfl := hsame error hrejection
      rwa [accepted_cons_of_some hrejection]

end Session

/-! ## What callers may count on -/

/-- Rejected snapshots leave no trace in a run, of one engine or of a session: only a snapshot of
    wrong length, or else with its cursor past the end, is rejected, and without it the rest of
    the run is the same. A snapshot that is not rejected fixes the engine, whatever was before. -/
theorem rejected_restores_invisible :
    (∀ (actions : List Action) (engine : Engine) (entropy : Entropy),
      ∃ replies engine' entropy',
        ((Action.run actions).run engine).run entropy = ((replies, engine'), entropy') ∧
        replies.map Reply.rejection? = actions.map Action.rejection? ∧
        ((Action.run ((accepted actions replies).map Prod.fst)).run engine).run entropy =
          (((accepted actions replies).map Prod.snd, engine'), entropy')) ∧
    (∀ (commands : List Command) (session : Session), ∃ replies session',
      (Session.run commands).run session = (replies, session') ∧
      (Session.run ((accepted commands replies).map Prod.fst)).run session =
        ((accepted commands replies).map Prod.snd, session')) ∧
    ∀ snapshot : Snapshot, snapshot.rejection? = none → ∃ restored : Engine,
      restored.snapshot = snapshot ∧ restored.remaining = .ofNat (624 - snapshot.cursor) ∧
      ∀ (actions : List Action) (engine : Engine) (entropy : Entropy), ∃ replies entropy',
        ((Action.run (actions ++ [.restore snapshot])).run engine).run entropy =
          ((replies ++ [.done], restored), entropy') := by
  refine ⟨Action.run_accepted, Session.run_accepted, fun snapshot h => ?_⟩
  obtain ⟨restored, hrestore⟩ := Snapshot.exists_restore?_eq_ok h
  obtain ⟨-, rfl, hremaining⟩ := Snapshot.restore?_eq_ok_iff.1 hrestore
  refine ⟨restored, rfl, hremaining, fun actions engine entropy => ?_⟩
  obtain ⟨replies, engine', entropy', hrun, -⟩ := Action.run_accepted actions engine entropy
  have hlast : ((Action.run [.restore restored.snapshot]).run engine').run entropy' =
      (([.done], restored), entropy') :=
    Action.run_cons_run (Action.perform_restore_run hrestore) rfl
  exact ⟨replies, entropy', Action.run_append_run hrun hlast⟩

/-- The length of a snapshot is looked at first, and the greatest cursor is accepted. -/
theorem rejected_restores_invisible_used_up :
    (∀ engine : Engine, ∃ replies engine' entropy,
      ((Action.run [.draw .word, .restore ⟨[1, 2, 3], 700⟩,
          .restore ⟨Block.zero.toList, 625⟩]).run engine).run {} =
        ((replies, engine'), entropy) ∧
      replies.map Reply.rejection? =
        [none, some (.wrongLength 624 3), some (.cursorPastEnd 625 624)]) ∧
    Snapshot.rejection? ⟨Block.zero.toList, 624⟩ = none ∧
    ∃ restored : Engine, restored.snapshot = ⟨Block.zero.toList, 624⟩ ∧ restored.remaining = 0 := by
  have hlength : Block.zero.toList.length = 624 := Vector.length_toList
  have hlast : Snapshot.rejection? ⟨Block.zero.toList, 624⟩ = none := by
    simp [Snapshot.rejection?, hlength]
  have hpast : Snapshot.rejection? ⟨Block.zero.toList, 625⟩ = some (.cursorPastEnd 625 624) := by
    simp [Snapshot.rejection?, hlength]
  obtain ⟨hactions, -, hrestored⟩ := rejected_restores_invisible
  refine ⟨fun engine => ?_, hlast, ?_⟩
  · obtain ⟨replies, engine', entropy, hrun, hreplies, -⟩ :=
      hactions [.draw .word, .restore ⟨[1, 2, 3], 700⟩, .restore ⟨Block.zero.toList, 625⟩] engine {}
    refine ⟨replies, engine', entropy, hrun, hreplies.trans ?_⟩
    exact congrArg (fun last => [none, some (.wrongLength 624 3), last]) hpast
  · obtain ⟨restored, hsnapshot, hremaining, -⟩ := hrestored _ hlast
    exact ⟨restored, hsnapshot, hremaining⟩

end Twister
