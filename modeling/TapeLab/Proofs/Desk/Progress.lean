import TapeLab.Proofs.Agenda.Progress
import TapeLab.Proofs.Desk.Gears

/-!
The load of a desk. Its gears are `Timely` if the time of every timer will come, those of the keeper
included. A session that is scheduled adds two calls, one for the write and one for what comes of
it; a tick that is scheduled adds one; and answering the keeper takes more off than it adds.
-/

namespace TapeLab

theorem Alarm.calls_pos (x : Alarm) : 0 < x.calls := by
  cases x with
  | tick => exact Nat.one_pos
  | keeper alarm =>
    cases alarm with
    | save => exact Nat.two_pos
    | heard _ => exact Nat.one_pos

structure Gears.Timely (g : Gears) : Prop where
  agenda : g.agenda.Timely
  keeper : ∀ k, g.keeper = some k → ∃ ms, k.delay = .finite ms

namespace Desk

variable {d : Desk}

theorem timely_scheduleSave (h : d.gears.Timely) : d.scheduleSave.gears.Timely := by
  unfold scheduleSave
  cases hk : d.keeper with
  | none => exact h
  | some k =>
    obtain ⟨ms, hms⟩ := h.keeper k hk
    simp only [Keeper.schedule, Keeper.cancel_eq]
    cases d.loop with
    | false =>
      refine ⟨h.agenda.cancelHeld _, ?_⟩
      rintro _ ⟨⟩
      exact ⟨ms, hms⟩
    | true =>
      refine ⟨?_, ?_⟩
      · have hset := (h.agenda.cancelHeld k.handle).set ms (.alarm (.keeper .save))
        rw [← hms] at hset
        exact hset
      · rintro _ ⟨⟩
        exact ⟨ms, hms⟩

theorem load_scheduleSave (d : Desk) :
    d.scheduleSave.agenda.load Alarm.calls ≤ d.agenda.load Alarm.calls + 2 := by
  unfold scheduleSave
  cases hk : d.keeper with
  | none => exact Nat.le_add_right _ _
  | some k =>
    have hcancel := Agenda.load_cancelHeld Alarm.calls_pos d.agenda k.handle
    simp only [Keeper.schedule, Keeper.cancel_eq]
    cases d.loop with
    | false => exact Nat.le_add_right_of_le hcancel
    | true =>
      show ((d.agenda.cancelHeld k.handle).set k.delay (.alarm (.keeper .save))).1.load
        Alarm.calls ≤ _
      rw [Agenda.load_set, Nat.add_comm]
      exact Nat.add_le_add_right hcancel 2

theorem timely_answerKeeper (h : d.gears.Timely) (alarm : KeeperAlarm) :
    (d.answerKeeper alarm).gears.Timely := by
  unfold answerKeeper
  cases hk : d.keeper with
  | none => exact h
  | some k =>
    obtain ⟨ms, hms⟩ := h.keeper k hk
    dsimp only
    rw [gears_withWork]
    refine ⟨?_, ?_⟩
    · cases alarm with
      | heard fault => exact h.agenda
      | save =>
        unfold Keeper.answer Keeper.save
        cases k.pending with
        | none => exact h.agenda
        | some s => exact h.agenda.putOff _
    · rintro _ ⟨⟩
      refine ⟨ms, ?_⟩
      rw [← hms]
      cases alarm with
      | heard fault => rfl
      | save =>
        unfold Keeper.answer Keeper.save
        cases k.pending <;> rfl

theorem load_answerKeeper (d : Desk) (alarm : KeeperAlarm) :
    (d.answerKeeper alarm).agenda.load Alarm.calls + 1 ≤
      d.agenda.load Alarm.calls + (Alarm.keeper alarm).calls := by
  have hpos := (Alarm.keeper alarm).calls_pos
  unfold answerKeeper
  cases d.keeper with
  | none => exact Nat.add_le_add_left hpos _
  | some k =>
    dsimp only
    rw [agenda_withWork]
    cases alarm with
    | heard fault => exact Nat.le_refl _
    | save =>
      unfold Keeper.answer Keeper.save
      cases k.pending with
      | none => exact Nat.add_le_add_left hpos _
      | some s =>
        dsimp only
        rw [Agenda.load_putOff, Nat.add_comm _ (d.agenda.load _)]
        exact Nat.le_refl _

end Desk

end TapeLab
