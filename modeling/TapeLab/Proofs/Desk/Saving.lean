import TapeLab.Proofs.Desk.Gears
import TapeLab.Proofs.Machine.Step

/-!
What operations owe to the keeper of a desk. An operation that changes something of what is saved
announces that, and then the keeper is handed the session; every other one leaves the session, the
keeper and the disk alone. So a desk stays `Guarded`: the session is the one that was handed over
last, or the first one if none was, and the keeper serves accordingly.
-/

namespace TapeLab

namespace Machine

variable {m : Machine}

theorem step_of_active_eq_none (h : m.step.1.active = none) :
    m.step.1.rules = m.rules ∧ m.step.1.tape = m.tape ∧ m.step.1.head = m.head := by
  revert h
  unfold step
  dsimp only
  split
  · exact fun _ => ⟨rfl, rfl, rfl⟩
  · split
    · exact fun _ => ⟨rfl, rfl, rfl⟩
    · split
      · exact fun _ => ⟨rfl, rfl, rfl⟩
      · split
        · exact fun _ => ⟨rfl, rfl, rfl⟩
        · intro h
          cases h

end Machine

namespace Outcome

variable {α : Type}

def handed (o : Outcome α) : List Session :=
  if o.change = some .kept then [o.desk.session] else []

def settled (o : Outcome α) : Desk :=
  if o.change = some .kept then o.desk.scheduleSave else o.desk

end Outcome

namespace Desk

variable {path : Path} {before : Tree} {first : Session} {handed written : List Session}
  {d e : Desk} {asked : Option Keeper.Request}

/-- A desk whose keeper has been handed some sessions and has written some, the newest first. -/
structure Guarded (path : Path) (before : Tree) (first : Session) (handed written : List Session)
    (d : Desk) : Prop where
  session : d.session = handed.head?.getD first
  keeper : ∃ k, d.keeper = some k ∧
    k.Serves path before (handed.head?.map Keeper.Request.keep) d.disk ∧
    (k.pending = none → (∀ s ∈ handed.head?, s.isWritable = true) →
      written.head? = handed.head?)
  challenge : ∃ c, d.challenge = .ok c

theorem Guarded.still (h : d.Guarded path before first handed written)
    (hsession : e.session = d.session) (hkeeper : e.keeper = d.keeper) (hdisk : e.disk = d.disk)
    (hchallenge : e.challenge = d.challenge) : e.Guarded path before first handed written :=
  ⟨hsession.trans h.session, hkeeper ▸ hdisk ▸ h.keeper, hchallenge ▸ h.challenge⟩

theorem session_scheduleSave (d : Desk) : d.scheduleSave.session = d.session := by
  unfold scheduleSave
  split <;> rfl

theorem challenge_scheduleSave (d : Desk) : d.scheduleSave.challenge = d.challenge := by
  unfold scheduleSave
  split <;> rfl

theorem scheduleSave_eq {k : Keeper} (hk : d.keeper = some k) :
    d.scheduleSave =
      { d with
        keeper := some (k.schedule .keeper d.loop d.session d.agenda).1
        agenda := (k.schedule .keeper d.loop d.session d.agenda).2 } := by
  rw [scheduleSave, hk]

theorem guarded_scheduleSave {k : Keeper} (hk : d.keeper = some k)
    (hserves : k.Serves path before asked d.disk) (hchallenge : ∃ c, d.challenge = .ok c) :
    d.scheduleSave.Guarded path before first (d.session :: handed) written where
  session := d.session_scheduleSave
  keeper := by
    rw [scheduleSave_eq hk]
    refine ⟨_, rfl, hserves.schedule Alarm.keeper d.loop d.session d.agenda, fun hnone => ?_⟩
    rw [Keeper.schedule_eq] at hnone
    split at hnone <;> cases hnone
  challenge := by rwa [challenge_scheduleSave]

def pending (d : Desk) : Option Session := d.keeper.bind Keeper.pending

def writes (d : Desk) : KeeperAlarm → List Session
  | .save => (d.pending.filter Session.isWritable).toList
  | .heard _ => []

/-- After the next write, the session that was written last is the one that was handed over last, if
that can be written. -/
theorem head?_written {k : Keeper}
    (hserves : k.Serves path before (handed.head?.map Keeper.Request.keep) d.disk)
    (hwritten : k.pending = none → (∀ s ∈ handed.head?, s.isWritable = true) →
      written.head? = handed.head?)
    (hwritable : ∀ s ∈ handed.head?, s.isWritable = true) :
    ((k.pending.filter Session.isWritable).toList ++ written).head? = handed.head? := by
  cases hpending : k.pending with
  | none => exact hwritten hpending hwritable
  | some s =>
    obtain ⟨s', hs', hkeep⟩ := Option.map_eq_some_iff.1 (hserves.eq_of_pending hpending)
    cases hkeep
    rw [Option.filter_some, hwritable s hs', hs']
    rfl

theorem withWork_eq (d : Desk) (w : KeeperWork Alarm) :
    ∃ j, (d.withWork w).1 =
      { d with keeper := some w.keeper, agenda := w.agenda, disk := w.disk, journal := j } :=
  logAll_eq _ _

theorem pending_withWork (d : Desk) (w : KeeperWork Alarm) :
    (d.withWork w).1.pending = w.keeper.pending := by
  obtain ⟨j, hj⟩ := withWork_eq d w
  rw [hj]
  rfl

theorem Guarded.withWork (h : d.Guarded path before first handed written) {w : KeeperWork Alarm}
    {written' : List Session}
    (hserves : w.keeper.Serves path before (handed.head?.map Keeper.Request.keep) w.disk)
    (hwritten : w.keeper.pending = none → (∀ s ∈ handed.head?, s.isWritable = true) →
      written'.head? = handed.head?) :
    (d.withWork w).1.Guarded path before first handed written' := by
  obtain ⟨j, hj⟩ := withWork_eq d w
  rw [hj]
  exact ⟨h.session, ⟨_, rfl, hserves, hwritten⟩, h.challenge⟩

theorem Guarded.flush (h : d.Guarded path before first handed written) :
    d.flush.1.Guarded path before first handed (d.writes .save ++ written) ∧
      d.flush.1.pending = none ∧
      ((∀ s ∈ d.pending, s.isWritable = true) → d.flush.2 = none) := by
  obtain ⟨k, hk, hserves, hwritten⟩ := h.keeper
  obtain ⟨disk, logs, fault, hflush, -, hfault, hserves'⟩ := hserves.flush d.agenda
  have hpending : d.pending = k.pending := by rw [Desk.pending, hk]; rfl
  unfold Desk.flush
  rw [hk]
  dsimp only
  rw [hflush, writes, hpending]
  refine ⟨h.withWork hserves' fun _ => head?_written hserves hwritten, pending_withWork d _,
    fun hwritable => ?_⟩
  rw [Desk.withWork, hfault hwritable]
  rfl

theorem session_flush (d : Desk) : d.flush.1.session = d.session := by
  unfold Desk.flush
  split
  · rfl
  · next k hk =>
    obtain ⟨j, hj⟩ := withWork_eq d (k.flush d.agenda d.disk)
    rw [hj]
    rfl

theorem flush_of_long {s : Session} (hs : d.pending = some s) (hlong : s.isWritable = false) :
    d.flush.1.pending = none ∧ ∃ k, d.keeper = some k ∧
      d.flush.1.disk = (d.disk.beginWrite k.path).1 := by
  obtain ⟨k, hk, hpending⟩ := Option.bind_eq_some_iff.1 hs
  have hwrite (l : Keeper) (disk : Tree) : l.write s disk =
      ((disk.beginWrite l.path).1, some (((disk.beginWrite l.path).2.map SaveError.disk).getD
        (.numeral .unwritable))) := by
    simp [Keeper.write, hlong]
  have hflush : ∃ logs fault, k.flush d.agenda d.disk = ⟨{ k with handle := none, pending := none },
      d.agenda.cancelHeld k.handle, (d.disk.beginWrite k.path).1, logs, fault⟩ := by
    rw [Keeper.flush, Keeper.cancel_eq]
    dsimp only
    rw [hpending]
    dsimp only
    rw [hwrite]
    unfold Keeper.complain
    dsimp only
    split <;> exact ⟨_, _, rfl⟩
  obtain ⟨logs, fault, hflush⟩ := hflush
  obtain ⟨j, hj⟩ := withWork_eq d (k.flush d.agenda d.disk)
  have hdesk : d.flush.1 = (d.withWork (k.flush d.agenda d.disk)).1 := by
    rw [Desk.flush, hk]
  rw [hdesk, hj, hflush]
  exact ⟨rfl, k, hk, rfl⟩

theorem Guarded.answerKeeper (h : d.Guarded path before first handed written)
    (alarm : KeeperAlarm) :
    (d.answerKeeper alarm).Guarded path before first handed (d.writes alarm ++ written) := by
  obtain ⟨k, hk, hserves, hwritten⟩ := h.keeper
  have hpending : d.pending = k.pending := by rw [Desk.pending, hk]; rfl
  unfold Desk.answerKeeper
  rw [hk]
  dsimp only
  cases alarm with
  | save =>
    obtain ⟨b, disk, logs, underway, hsave, -, -, hserves'⟩ := hserves.save Alarm.keeper d.agenda
    rw [Keeper.answer, hsave, writes, hpending]
    exact h.withWork hserves' fun _ => head?_written hserves hwritten
  | heard fault => exact h.withWork (hserves.of_pending rfl rfl) hwritten

/-- What an operation leaves of a desk: nothing has changed of what is saved, or the change is
announced. The keeper and the disk are left alone. -/
inductive Honest {α : Type} (d : Desk) (o : Outcome α) : Prop
  | still : o.change ≠ some .kept → o.desk.session = d.session → o.desk.keeper = d.keeper →
      o.desk.disk = d.disk → o.desk.challenge = d.challenge → Honest d o
  | kept : o.change = some .kept → o.desk.keeper = d.keeper → o.desk.disk = d.disk →
      ((∃ c, d.challenge = .ok c) → ∃ c, o.desk.challenge = .ok c) → Honest d o

theorem Honest.map {α β : Type} {o : Outcome α} (h : Honest d o) (f : α → β) :
    Honest d (o.map f) := by
  cases h with
  | still hchange hsession hkeeper hdisk hchallenge =>
    exact .still hchange hsession hkeeper hdisk hchallenge
  | kept hchange hkeeper hdisk hchallenge => exact .kept hchange hkeeper hdisk hchallenge

theorem Guarded.settled {α : Type} {o : Outcome α}
    (h : d.Guarded path before first handed written) (ho : Honest d o) :
    o.settled.Guarded path before first (o.handed ++ handed) written := by
  cases ho with
  | still hchange hsession hkeeper hdisk hchallenge =>
    rw [Outcome.settled, Outcome.handed, if_neg hchange, if_neg hchange]
    exact h.still hsession hkeeper hdisk hchallenge
  | kept hchange hkeeper hdisk hchallenge =>
    obtain ⟨k, hk, hserves, -⟩ := h.keeper
    rw [Outcome.settled, Outcome.handed, if_pos hchange, if_pos hchange]
    exact guarded_scheduleSave (hkeeper.trans hk) (hdisk ▸ hserves) (hchallenge h.challenge)

theorem advance_settled (hchallenge : ∃ c, d.challenge = .ok c) :
    ∃ j, d.advance.desk =
        { d with machine := Work.judged d.catalog d.index d.machine.step.1, journal := j } ∧
      (d.advance.change = some .kept ↔ d.machine.step.1.active ≠ none) := by
  obtain ⟨c, hc⟩ := hchallenge
  cases hstep : d.machine.step with
  | mk m answer =>
    cases answer with
    | error e =>
      have hactive := Machine.active_of_step_error hstep
      refine ⟨d.journal, ?_, ?_⟩
      · simp [advance, hstep, Outcome.failed, withMachine, Work.judged, Work.verdict?, hactive]
      · simp [advance, hstep, Outcome.failed, hactive]
    | ok more =>
      obtain ⟨j, hj⟩ := d.advance_eq hstep hc
      refine ⟨j, by rw [hj]; rfl, ?_⟩
      rw [hj]
      cases hactive : m.active <;> simp [Outcome.changed]

theorem honest_advance (hchallenge : ∃ c, d.challenge = .ok c) : Honest d d.advance := by
  obtain ⟨j, hdesk, hchange⟩ := advance_settled hchallenge
  have hsame : d.advance.desk.challenge = d.challenge := by rw [hdesk]; rfl
  by_cases hactive : d.machine.step.1.active = none
  · refine .still (fun hkept => hchange.1 hkept hactive) ?_ (by rw [hdesk]) (by rw [hdesk]) hsame
    obtain ⟨hrules, htape, hhead⟩ := Machine.step_of_active_eq_none hactive
    obtain ⟨won, message, hjudged⟩ := Work.judged_cases d.catalog d.index d.machine.step.1
    rw [hdesk, hjudged]
    simp only [Desk.session, hrules, htape, hhead]
  · exact .kept (hchange.2 hactive) (by rw [hdesk]) (by rw [hdesk]) fun h => hsame ▸ h

theorem honest_step (hchallenge : ∃ c, d.challenge = .ok c) : Honest d d.step := by
  unfold Desk.step
  split
  · exact .still nofun rfl rfl rfl rfl
  · exact honest_advance hchallenge

theorem honest_run (d : Desk) : Honest d d.run := by
  unfold Desk.run
  split
  · exact .still nofun rfl rfl rfl rfl
  · split
    · exact .still nofun rfl rfl rfl rfl
    · split <;> exact .still nofun rfl rfl rfl rfl

theorem honest_pause (d : Desk) : Honest d d.pause := by
  unfold Desk.pause
  split <;> exact .still nofun rfl rfl rfl rfl

theorem honest_setSpeed (milliseconds : Int) (d : Desk) :
    Honest d (d.setSpeed milliseconds) := by
  unfold Desk.setSpeed
  dsimp only
  split <;> exact .still nofun rfl rfl rfl rfl

theorem honest_undo (d : Desk) : Honest d d.undo := by
  unfold Desk.undo
  split
  · exact .still nofun rfl rfl rfl rfl
  · dsimp only
    split
    · exact .still nofun rfl rfl rfl rfl
    · exact .kept rfl rfl rfl id

theorem honest_loadChallenge (index : Int) (d : Desk) : Honest d (d.loadChallenge index) := by
  by_cases hindex : 0 ≤ index ∧ index < d.catalog.challenges.length
  · obtain ⟨c, hc⟩ := d.catalog.get_eq_ok hindex.1 hindex.2
    rw [d.loadChallenge_eq hindex.1 hindex.2 hc]
    exact .kept rfl rfl rfl fun _ => ⟨c, hc⟩
  · rw [Desk.loadChallenge, if_neg hindex]
    exact .still (by simp [Outcome.failed]) rfl rfl rfl rfl

theorem honest_updateRule (index : Int) (field value : String) (d : Desk) :
    Honest d (d.updateRule index field value) := by
  unfold Desk.updateRule
  split
  · exact .still nofun rfl rfl rfl rfl
  · exact .still nofun rfl rfl rfl rfl
  · exact .kept rfl rfl rfl id

theorem honest_deleteRule (index : Int) (d : Desk) : Honest d (d.deleteRule index) := by
  unfold Desk.deleteRule
  split
  · exact .still nofun rfl rfl rfl rfl
  · exact .kept rfl rfl rfl id

theorem honest_editCell (index : Int) (value : String) (d : Desk) :
    Honest d (d.editCell index value) := by
  unfold Desk.editCell
  split
  · exact .still nofun rfl rfl rfl rfl
  · exact .kept rfl rfl rfl id

theorem honest_removeCell (d : Desk) : Honest d d.removeCell := by
  unfold Desk.removeCell
  split
  · exact .still nofun rfl rfl rfl rfl
  · exact .kept rfl rfl rfl id

theorem clearSave_eq {k : Keeper} (hk : d.keeper = some k)
    (hserves : k.Serves path before asked d.disk) :
    ∃ cleared, d.clearSave = ({ d with
        keeper := some { k with handle := none, pending := none }
        agenda := d.agenda.cancelHeld k.handle
        disk := cleared }, none) ∧
      { k with handle := none, pending := none }.Serves path before (some .clear) cleared := by
  obtain ⟨cleared, hclear, hserves'⟩ := hserves.clear d.agenda
  refine ⟨cleared, ?_, hserves'⟩
  rw [clearSave, hk]
  dsimp only
  rw [hclear]
  rfl

theorem Guarded.reset (h : d.Guarded path before first handed written) :
    d.reset.settled.Guarded path before first (d.reset.handed ++ handed) written := by
  obtain ⟨c, hc⟩ := h.challenge
  obtain ⟨k, hk, hserves, -⟩ := h.keeper
  obtain ⟨e, he⟩ : ∃ e, e = d.stopRun.withMachine (d.stopRun.machine.load c.cells c.head) :=
    ⟨_, rfl⟩
  have hkeeper : e.keeper = some k := by rw [he]; exact hk
  have hdisk : e.disk = d.disk := by rw [he]; rfl
  have hchallenge : e.challenge = .ok c := by rw [he]; exact hc
  obtain ⟨cleared, hclear, hserves'⟩ := clearSave_eq hkeeper (hdisk ▸ hserves)
  have hstop : d.stopRun.challenge = .ok c := hc
  have hreset : d.reset = .changed (e.clearSave.1.log (.reset c.name)) () .kept := by
    unfold Desk.reset
    dsimp only
    rw [hstop]
    dsimp only
    rw [← he, hclear]
  rw [hreset, hclear]
  exact guarded_scheduleSave rfl hserves' ⟨c, hchallenge⟩

theorem restore_eq_of_ok {s : Session} {u : Unit} (h : (d.restore s).answer = .ok u) :
    ∃ index m j c, d.catalog.get index = .ok c ∧
      d.restore s =
        .changed { d.stopRun with index := index, machine := m, journal := j } () .passing := by
  unfold Desk.restore at h ⊢
  dsimp only at h ⊢
  split at h
  · cases h
  · next m e hprepared =>
    have he : ∃ index, e = { d.stopRun with index := index } := by
      split at hprepared
      · exact ⟨d.index, (Prod.mk.inj hprepared).2.symm⟩
      · exact ⟨_, (Prod.mk.inj hprepared).2.symm⟩
    obtain ⟨index, rfl⟩ := he
    split at h
    · cases h
    · next c hc => exact ⟨index, _, _, c, hc, rfl⟩

theorem Guarded.restore (h : d.Guarded path before first [] []) {s : Session} {u : Unit}
    (hs : (d.restore s).answer = .ok u) :
    (d.restore s).desk.Guarded path before (d.restore s).desk.session [] [] := by
  obtain ⟨index, m, j, c, hc, hrestore⟩ := restore_eq_of_ok hs
  rw [hrestore]
  exact ⟨rfl, h.keeper, ⟨c, hc⟩⟩

end Desk

open Desk in
theorem Operation.guarded {path : Path} {before : Tree} {first : Session}
    {handed written : List Session} {d : Desk} (h : d.Guarded path before first handed written)
    (op : Operation) (hop : ∀ s, op ≠ .restore s) :
    (op.apply d).settled.Guarded path before first ((op.apply d).handed ++ handed) written := by
  cases op with
  | step => exact h.settled ((honest_step h.challenge).map _)
  | run => exact h.settled (d.honest_run.map _)
  | pause => exact h.settled (d.honest_pause.map _)
  | undo => exact h.settled (d.honest_undo.map _)
  | reset => exact h.reset
  | loadChallenge index => exact h.settled ((honest_loadChallenge index d).map _)
  | useRules t => exact h.settled (.kept rfl rfl rfl id)
  | loadTape cells head => exact h.settled (.kept rfl rfl rfl id)
  | setSpeed milliseconds => exact h.settled ((honest_setSpeed milliseconds d).map _)
  | addRule => exact h.settled (.kept rfl rfl rfl id)
  | updateRule index field value => exact h.settled ((honest_updateRule index field value d).map _)
  | deleteRule index => exact h.settled ((honest_deleteRule index d).map _)
  | editCell index value => exact h.settled ((honest_editCell index value d).map _)
  | addCell => exact h.settled (.kept rfl rfl rfl id)
  | removeCell => exact h.settled (d.honest_removeCell.map _)
  | restore s => exact absurd rfl (hop s)

end TapeLab
