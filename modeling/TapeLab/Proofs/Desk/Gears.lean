import TapeLab.Proofs.Desk.Work
import TapeLab.Proofs.Keeper
import TapeLab.Proofs.Pacer

/-!
What drives a desk: its pacer, its keeper, and the agenda that both set their timers on. The gears
are `Sound` if each of the two knows the timer that is set for it, and no timer is set for the
keeper but this one; `only` tells whether that is so for the pacer, too, which depends on what
listeners do. A desk is `InStep` between two events: a timer for a tick is set just while a run is
going on, a run is going on only while the machine has not halted, and a pacer that has halted has a
machine that has. No operation breaks that, whatever it does to the machine.
-/

namespace TapeLab

structure Gears where
  pacer : Pacer
  keeper : Option Keeper
  agenda : Agenda Alarm

namespace Gears

structure Sound (only : Prop) (g : Gears) : Prop where
  pacer : g.pacer.Holds only .tick g.agenda
  keeper : g.agenda.Sole (.keeper .save) (g.keeper.bind Keeper.handle)
  coherent : g.pacer.Coherent

variable {only : Prop} {g : Gears} {k l : Keeper} {a : Agenda Alarm} {id : Nat}

theorem Sound.pause (h : g.Sound only) :
    Sound only
      { g with pacer := (g.pacer.pause g.agenda).1, agenda := (g.pacer.pause g.agenda).2 } where
  pacer := h.pacer.pause
  keeper := by
    rw [Pacer.pause_eq]
    exact h.keeper.cancelHeld_other (h.pacer.held.elsewhere h.pacer.numbered (by simp))
  coherent := h.coherent.pause _

theorem Sound.reset (h : g.Sound only) :
    Sound only
      { g with pacer := (g.pacer.reset g.agenda).1, agenda := (g.pacer.reset g.agenda).2 } where
  pacer := h.pacer.reset
  keeper := by
    rw [Pacer.reset_eq]
    exact h.keeper.cancelHeld_other (h.pacer.held.elsewhere h.pacer.numbered (by simp))
  coherent := h.coherent.reset _

theorem Sound.schedule (h : g.Sound only) (hnone : only → g.pacer.handle = none) {p : Pacer}
    (hhandle : p.handle = g.pacer.handle) (hcoherent : p.Coherent) :
    Sound only { g with
      pacer := (p.schedule .tick g.agenda).1, agenda := (p.schedule .tick g.agenda).2 } where
  pacer := by
    have hholds : p.Holds only .tick g.agenda :=
      ⟨h.pacer.numbered, hhandle ▸ h.pacer.held, hhandle ▸ h.pacer.sole⟩
    exact hholds.schedule fun ho => hhandle.trans (hnone ho)
  keeper := h.keeper.insert_other (g.agenda.alarms_set (.finite p.delay) .tick) (by simp)
  coherent := hcoherent.handle _

theorem Sound.beginTick (h : g.Sound only)
    (halarms : g.agenda.alarms.Perm ((id, .tick) :: a.alarms)) (hnext : a.next = g.agenda.next) :
    (only → g.pacer.handle = some id) ∧
      Sound only { g with pacer := g.pacer.beginTick, agenda := a } := by
  obtain ⟨hheld, hholds⟩ := h.pacer.fire halarms hnext
  exact ⟨hheld, hholds, h.keeper.other halarms (by simp), h.coherent.handle none⟩

theorem Sound.dropSave (h : g.Sound only) (hk : g.keeper = some k) (hl : l.handle = none) :
    Sound only { g with keeper := some l, agenda := g.agenda.cancelHeld k.handle } := by
  have hkeeper : g.agenda.Sole (.keeper .save) k.handle := by
    have hsole := h.keeper
    rwa [hk] at hsole
  have helsewhere : g.agenda.Elsewhere .tick k.handle :=
    hkeeper.toHeld.elsewhere h.pacer.numbered (by simp)
  refine ⟨h.pacer.cancel_other helsewhere, ?_, h.coherent⟩
  show (g.agenda.cancelHeld k.handle).Sole (.keeper .save) l.handle
  rw [hl]
  exact hkeeper.cancelHeld_self

theorem Sound.setSave (h : g.Sound only) (hk : g.keeper = some k) (hnone : k.handle = none)
    (delay : Time) (hl : l.handle = some g.agenda.next) :
    Sound only { g with
      keeper := some l, agenda := (g.agenda.set delay (.alarm (.keeper .save))).1 } := by
  have hkeeper : g.agenda.Sole (.keeper .save) none := by
    have hsole := h.keeper
    rw [hk] at hsole
    exact hnone ▸ hsole
  have halarms := g.agenda.alarms_set delay (.keeper .save)
  refine ⟨h.pacer.insert_other halarms (by simp) (h.pacer.numbered.set delay _), ?_, h.coherent⟩
  show Agenda.Sole _ _ l.handle
  rw [hl]
  exact hkeeper.insert halarms

theorem Sound.beginSave (h : g.Sound only)
    (halarms : g.agenda.alarms.Perm ((id, .keeper .save) :: a.alarms))
    (hnext : a.next = g.agenda.next) (hl : l.handle = none) :
    Sound only { g with keeper := some l, agenda := a } := by
  obtain ⟨-, hnone⟩ := h.keeper.gone h.pacer.numbered halarms hnext
  refine ⟨h.pacer.other halarms hnext (by simp), ?_, h.coherent⟩
  show Agenda.Sole _ _ l.handle
  rwa [hl]

theorem Sound.putOff (h : g.Sound only) (fault : Option SaveError) :
    Sound only { g with agenda := (g.agenda.putOff (.alarm (.keeper (.heard fault)))).1 } := by
  have halarms := g.agenda.alarms_putOff (.keeper (.heard fault))
  exact ⟨h.pacer.insert_other halarms (by simp) (h.pacer.numbered.putOff _),
    h.keeper.insert_other halarms (by simp), h.coherent⟩

theorem Sound.hear (h : g.Sound only) {fault : Option SaveError}
    (halarms : g.agenda.alarms.Perm ((id, .keeper (.heard fault)) :: a.alarms))
    (hnext : a.next = g.agenda.next) : Sound only { g with agenda := a } :=
  ⟨h.pacer.other halarms hnext (by simp), h.keeper.other halarms (by simp), h.coherent⟩

theorem Sound.pass (h : g.Sound only) (halarms : g.agenda.alarms.Perm a.alarms)
    (hnext : g.agenda.next ≤ a.next) : Sound only { g with agenda := a } :=
  ⟨⟨h.pacer.numbered.perm halarms hnext, h.pacer.held.perm halarms,
    fun ho => (h.pacer.sole ho).perm halarms⟩, h.keeper.perm halarms, h.coherent⟩

end Gears

namespace Desk

def gears (d : Desk) : Gears := ⟨d.pacer, d.keeper, d.agenda⟩

variable {only : Prop} {d e : Desk}

@[simp] theorem gears_logAll (ls : List Log) (d : Desk) : (d.logAll ls).gears = d.gears := by
  obtain ⟨j, hj⟩ := logAll_eq ls d
  rw [hj]
  rfl

theorem gears_withWork (d : Desk) (w : KeeperWork Alarm) :
    (d.withWork w).1.gears = ⟨d.pacer, some w.keeper, w.agenda⟩ := gears_logAll _ _

theorem agenda_withWork (d : Desk) (w : KeeperWork Alarm) : (d.withWork w).1.agenda = w.agenda :=
  congrArg Gears.agenda (gears_withWork d w)

@[simp] theorem pacer_scheduleSave (d : Desk) : d.scheduleSave.pacer = d.pacer := by
  unfold scheduleSave
  split <;> rfl

@[simp] theorem pacer_clearSave (d : Desk) : d.clearSave.1.pacer = d.pacer := by
  unfold clearSave
  split
  · rfl
  · exact congrArg Gears.pacer (gears_withWork d _)

@[simp] theorem pacer_answerKeeper (d : Desk) (alarm : KeeperAlarm) :
    (d.answerKeeper alarm).pacer = d.pacer := by
  unfold answerKeeper
  split
  · rfl
  · exact congrArg Gears.pacer (gears_withWork d _)

theorem sound_scheduleSave (h : d.gears.Sound only) : d.scheduleSave.gears.Sound only := by
  unfold scheduleSave
  cases hk : d.keeper with
  | none => exact h
  | some k =>
    obtain ⟨l, hl⟩ : ∃ l, l = { k with pending := some d.session, handle := none } := ⟨_, rfl⟩
    have hdrop := h.dropSave (l := l) hk (by rw [hl])
    simp only [Keeper.schedule, Keeper.cancel_eq, ← hl]
    cases d.loop with
    | true => exact hdrop.setSave rfl (by rw [hl]) _ rfl
    | false => exact hdrop

theorem sound_clearSave (h : d.gears.Sound only) : d.clearSave.1.gears.Sound only := by
  unfold clearSave
  cases hk : d.keeper with
  | none => exact h
  | some k =>
    dsimp only
    rw [gears_withWork]
    unfold Keeper.clear
    rw [Keeper.cancel_eq]
    dsimp only
    split
    · exact h.dropSave hk rfl
    · unfold Keeper.complain
      split <;> exact h.dropSave hk rfl

theorem sound_answerKeeper (h : d.gears.Sound only) {id : Nat} {alarm : KeeperAlarm}
    {a : Agenda Alarm}
    (halarms : d.agenda.alarms.Perm ((id, .keeper alarm) :: a.alarms))
    (hnext : a.next = d.agenda.next) :
    (answerKeeper alarm { d with agenda := a }).gears.Sound only := by
  unfold answerKeeper
  split
  · next hk =>
    cases alarm with
    | save =>
      have hheld := (h.keeper id).1 (halarms.mem_iff.2 List.mem_cons_self)
      rw [show d.gears.keeper = none from hk] at hheld
      cases hheld
    | heard fault => exact h.hear halarms hnext
  · next k hk =>
    have hkeeper : d.gears.keeper = some k := hk
    rw [gears_withWork]
    cases alarm with
    | save =>
      unfold Keeper.answer Keeper.save
      cases k.pending with
      | none => exact h.beginSave halarms hnext rfl
      | some s => exact (h.beginSave halarms hnext rfl).putOff _
    | heard fault =>
      have hheard := h.hear halarms hnext
      have hsole := hheard.keeper
      rw [hkeeper] at hsole
      exact ⟨hheard.pacer, hsole, hheard.coherent⟩

def ticks (d : Desk) : List Nat := d.agenda.timersFor .tick

structure InStep (only : Prop) (d : Desk) : Prop where
  sound : d.gears.Sound only
  awaited : only → d.pacer.handle.isSome = d.running
  running : only → d.running = true → d.machine.halted = false
  halted : d.pacer.phase = .halted → d.machine.halted = true

theorem InStep.ticks (h : d.InStep only) (ho : only) : d.ticks = d.pacer.handle.toList :=
  (h.sound.pacer.sole ho).timersFor h.sound.pacer.numbered

theorem InStep.running_iff_ticks (h : d.InStep only) (ho : only) :
    d.running = true ↔ ∃ id, d.ticks = [id] := by
  rw [h.ticks ho, ← h.awaited ho]
  cases d.pacer.handle <;> simp

theorem InStep.ticks_eq_nil (h : d.InStep only) (ho : only) (hidle : d.running = false) :
    d.ticks = [] := by
  have hnone : d.pacer.handle = none := by simpa [hidle] using h.awaited ho
  rw [h.ticks ho, hnone]
  rfl

theorem InStep.phase_eq_idle (h : d.InStep only) (hidle : d.running = false)
    (hhalted : d.machine.halted = false) : d.pacer.phase = .idle := by
  cases hphase : d.pacer.phase with
  | idle => rfl
  | running => simp [Desk.running, Pacer.running, hphase] at hidle
  | halted => exact absurd (h.halted hphase) (by simp [hhalted])

theorem InStep.still (h : d.InStep only) (hgears : e.gears = d.gears)
    (hhalted : e.machine.halted = d.machine.halted) : e.InStep only := by
  have hpacer : e.pacer = d.pacer := congrArg Gears.pacer hgears
  have hrunning : e.running = d.running := congrArg Pacer.running hpacer
  refine ⟨hgears ▸ h.sound, ?_, ?_, ?_⟩
  · rw [hpacer, hrunning]
    exact h.awaited
  · rw [hrunning, hhalted]
    exact h.running
  · rw [hpacer, hhalted]
    exact h.halted

theorem inStep_of_idle (hsound : d.gears.Sound only) (hhandle : d.pacer.handle = none)
    (hphase : d.pacer.phase = .idle) : d.InStep only where
  sound := hsound
  awaited _ := by simp [hhandle, running, Pacer.running, hphase]
  running _ h := by simp [Desk.running, Pacer.running, hphase] at h
  halted h := by simp [hphase] at h

theorem pacer_stopRun (d : Desk) :
    d.stopRun.pacer = { d.pacer with handle := none }.stop .idle := by
  show (d.pacer.reset d.agenda).1 = _
  rw [Pacer.reset_eq]

theorem InStep.stopRun (h : d.InStep only) (hpacer : e.pacer = d.stopRun.pacer)
    (hsound : d.stopRun.gears.Sound only → e.gears.Sound only) : e.InStep only := by
  refine inStep_of_idle (hsound h.sound.reset) ?_ ?_
  · rw [hpacer, pacer_stopRun]
    rfl
  · rw [hpacer, pacer_stopRun]
    rfl

theorem gears_advance (d : Desk) : d.advance.desk.gears = d.gears := by
  unfold advance
  cases d.machine.step with
  | mk m answer =>
    cases answer with
    | error e => rfl
    | ok more =>
      obtain ⟨j, hj⟩ := logAll_eq (stepLog d.machine m) (d.withMachine m)
      dsimp only
      rw [hj]
      rcases judge_cases { d.withMachine m with journal := j } with ⟨f, hjudge, -⟩ | ⟨k, hjudge⟩
      · rw [hjudge]
        rfl
      · rw [hjudge]
        rfl

theorem InStep.step (h : d.InStep only) : d.step.desk.InStep only := by
  unfold Desk.step
  cases hrunning : d.running with
  | true => exact h
  | false =>
    cases hhalted : d.machine.halted with
    | true => exact h
    | false =>
      have hgears := d.gears_advance
      have hpacer : d.advance.desk.pacer = d.pacer := congrArg Gears.pacer hgears
      have hrunning' : d.advance.desk.running = false := by
        rw [Desk.running, hpacer]
        exact hrunning
      simp only [Bool.or_false, Bool.false_eq_true, if_false]
      refine ⟨hgears ▸ h.sound, fun ho => ?_, fun _ hrun => ?_, fun hphase => ?_⟩
      · rw [hrunning', hpacer, h.awaited ho, hrunning]
      · rw [hrunning'] at hrun
        cases hrun
      · rw [hpacer] at hphase
        rw [h.halted hphase] at hhalted
        cases hhalted

/-- With a run that has just begun. -/
def begun (d : Desk) : Desk :=
  (d.withPacer (d.pacer.begun.schedule .tick d.agenda)).log
    (.runStarted (secondsOf d.pacer.delay).fixed3)

theorem run_eq (d : Desk) :
    d.run = if d.pacer.phase = .idle ∧ d.machine.halted = false then
        if d.loop then .changed d.begun true .passing else .failed d .noLoop
      else .refused d false := by
  unfold Desk.run
  rw [Pacer.start?_eq]
  cases hhalted : d.machine.halted with
  | true => simp
  | false =>
    by_cases hphase : d.pacer.phase = .idle
    · cases d.loop <;> simp [hphase, begun]
    · simp [hphase]

theorem run_of_running (hrunning : d.running = true) : d.run = .refused d false := by
  rw [run_eq, if_neg]
  rintro ⟨hidle, -⟩
  simp [Desk.running, Pacer.running, hidle] at hrunning

theorem run_of_ok (h : d.run.answer = .ok true) :
    d.pacer.phase = .idle ∧ d.machine.halted = false ∧
      d.run = .changed d.begun true .passing := by
  rw [run_eq] at h ⊢
  split at h
  · next hfree =>
    rw [if_pos hfree]
    split at h
    · next hloop =>
      rw [if_pos hloop]
      exact ⟨hfree.1, hfree.2, rfl⟩
    · cases h
  · cases h

theorem apply_run_of_ok (h : d.run.answer = .ok true) :
    Operation.run.apply d = .changed d.begun (.flag true) .passing := by
  show d.run.map Answer.flag = _
  rw [(run_of_ok h).2.2]
  rfl

theorem InStep.run (h : d.InStep only) : d.run.desk.InStep only := by
  rw [run_eq]
  split
  · next hfree =>
    have hidle : d.running = false := by simp [Desk.running, Pacer.running, hfree.1]
    have hnone (ho : only) : d.pacer.handle = none := by simpa [hidle] using h.awaited ho
    split
    · refine ⟨h.sound.schedule hnone rfl (h.sound.coherent.begun hidle), fun _ => rfl,
        fun _ _ => hfree.2, fun hhalt => ?_⟩
      cases hhalt
    · exact h
  · exact h

theorem pacer_pause (hrunning : d.running = true) :
    d.pause.desk.pacer = { d.pacer with handle := none }.stop .idle := by
  have hpacer : (d.pacer.pause d.agenda).1 = { d.pacer with handle := none }.stop .idle := by
    rw [Pacer.pause_eq]
    exact if_pos hrunning
  rw [← hpacer, Desk.pause, if_pos hrunning]
  rfl

def paused (d : Desk) : Desk := d.withPacer (d.pacer.pause d.agenda)

theorem running_paused (d : Desk) : d.paused.running = false := d.pacer.running_pause d.agenda

theorem apply_pause_of_idle (hidle : d.running = false) :
    Operation.pause.apply d = .refused d .done := by
  show d.pause.map _ = _
  rw [Desk.pause, hidle]
  rfl

theorem apply_pause_of_running (hrunning : d.running = true) :
    Operation.pause.apply d = .changed (d.paused.log .runPaused) .done .passing := by
  show d.pause.map _ = _
  rw [Desk.pause, if_pos hrunning]
  rfl

theorem InStep.pause (h : d.InStep only) : d.pause.desk.InStep only := by
  cases hrunning : d.running with
  | false =>
    rw [Desk.pause, hrunning]
    exact h
  | true =>
    have hpacer := pacer_pause hrunning
    refine inStep_of_idle ?_ (by rw [hpacer]; rfl) (by rw [hpacer]; rfl)
    rw [Desk.pause, if_pos hrunning]
    exact h.sound.pause

theorem InStep.undo (h : d.InStep only) : d.undo.desk.InStep only := by
  unfold Desk.undo
  split
  · exact h
  · dsimp only
    split <;> exact h.stopRun rfl id

theorem gears_reset (d : Desk) : ∃ e : Desk, e.gears = d.stopRun.gears ∧
    (d.reset.desk.gears = e.gears ∨ d.reset.desk.gears = e.clearSave.1.gears) := by
  unfold Desk.reset
  dsimp only
  split
  · exact ⟨d.stopRun, rfl, .inl rfl⟩
  · next c _ =>
    refine ⟨d.stopRun.withMachine (d.stopRun.machine.load c.cells c.head), rfl, .inr ?_⟩
    split
    · next e f he => rw [he]; rfl
    · next e he => rw [he]; rfl

theorem pacer_reset (d : Desk) : d.reset.desk.pacer = d.stopRun.pacer := by
  obtain ⟨e, he, hreset⟩ := d.gears_reset
  have hpacer : e.pacer = d.stopRun.pacer := congrArg Gears.pacer he
  rcases hreset with hreset | hreset
  · exact (congrArg Gears.pacer hreset).trans hpacer
  · exact ((congrArg Gears.pacer hreset).trans (pacer_clearSave e)).trans hpacer

theorem InStep.reset (h : d.InStep only) : d.reset.desk.InStep only := by
  refine h.stopRun d.pacer_reset fun hs => ?_
  obtain ⟨e, he, hreset⟩ := d.gears_reset
  rw [← he] at hs
  rcases hreset with hreset | hreset
  · exact hreset ▸ hs
  · exact hreset ▸ sound_clearSave hs

theorem gears_loadChallenge {index : Int}
    (hindex : 0 ≤ index ∧ index < d.catalog.challenges.length) :
    (d.loadChallenge index).desk.gears = d.stopRun.gears := by
  rw [Desk.loadChallenge, if_pos hindex]
  dsimp only
  split <;> rfl

theorem gears_restore (d : Desk) (s : Session) : (d.restore s).desk.gears = d.stopRun.gears := by
  unfold Desk.restore
  dsimp only
  split
  · next f e he =>
    split at he
    · cases he
    · obtain ⟨-, rfl⟩ := Prod.mk.inj he
      rfl
  · next m e he =>
    have hgears : e.gears = d.stopRun.gears := by
      split at he
      · obtain ⟨-, rfl⟩ := Prod.mk.inj he
        rfl
      · obtain ⟨-, rfl⟩ := Prod.mk.inj he
        rfl
    split <;> exact hgears

theorem InStep.stopped (h : d.InStep only) (hgears : e.gears = d.stopRun.gears) : e.InStep only :=
  h.stopRun (congrArg Gears.pacer hgears) fun hs => hgears ▸ hs

theorem InStep.loadChallenge (h : d.InStep only) (index : Int) :
    (d.loadChallenge index).desk.InStep only := by
  by_cases hindex : 0 ≤ index ∧ index < d.catalog.challenges.length
  · exact h.stopped (gears_loadChallenge hindex)
  · rw [Desk.loadChallenge, if_neg hindex]
    exact h

theorem InStep.setSpeed (h : d.InStep only) (milliseconds : Int) :
    (d.setSpeed milliseconds).desk.InStep only := by
  unfold Desk.setSpeed
  dsimp only
  split
  · exact h
  · obtain ⟨⟨hnumbered, hheld, hsole⟩, hkeeper, hcurrent, htold⟩ := h.sound
    exact ⟨⟨⟨hnumbered, hheld, hsole⟩, hkeeper, hcurrent, htold⟩, h.awaited, h.running, h.halted⟩

end Desk

def Operation.Edits : Operation → Prop
  | .useRules _ | .addRule | .updateRule _ _ _ | .deleteRule _ => True
  | .editCell _ _ | .addCell | .removeCell => True
  | _ => False

theorem Operation.Edits.still {op : Operation} (h : op.Edits) (d : Desk) :
    (op.apply d).desk.gears = d.gears ∧ (op.apply d).desk.machine.halted = d.machine.halted := by
  cases op with
  | useRules t => exact ⟨rfl, rfl⟩
  | addRule => exact ⟨rfl, rfl⟩
  | addCell => exact ⟨rfl, rfl⟩
  | updateRule index field value =>
    show (d.updateRule index field value).desk.gears = _ ∧
      (d.updateRule index field value).desk.machine.halted = _
    unfold Desk.updateRule
    split <;> exact ⟨rfl, rfl⟩
  | deleteRule index =>
    show (d.deleteRule index).desk.gears = _ ∧ (d.deleteRule index).desk.machine.halted = _
    unfold Desk.deleteRule
    split <;> exact ⟨rfl, rfl⟩
  | editCell index value =>
    show (d.editCell index value).desk.gears = _ ∧ (d.editCell index value).desk.machine.halted = _
    unfold Desk.editCell
    split <;> exact ⟨rfl, rfl⟩
  | removeCell =>
    show d.removeCell.desk.gears = _ ∧ d.removeCell.desk.machine.halted = _
    unfold Desk.removeCell
    split <;> exact ⟨rfl, rfl⟩
  | _ => exact h.elim

theorem Operation.inStep {only : Prop} {d : Desk} (h : d.InStep only) (op : Operation) :
    (op.apply d).desk.InStep only := by
  by_cases hedit : op.Edits
  · exact h.still (hedit.still d).1 (hedit.still d).2
  cases op with
  | step => exact h.step
  | run => exact h.run
  | pause => exact h.pause
  | undo => exact h.undo
  | reset => exact h.reset
  | loadChallenge index => exact h.loadChallenge index
  | loadTape cells head => exact h.stopped rfl
  | restore s => exact h.stopped (d.gears_restore s)
  | setSpeed milliseconds => exact h.setSpeed milliseconds
  | _ => exact absurd trivial hedit

def Operation.Ends (challenges : Nat) : Operation → Prop
  | .pause | .reset | .loadTape _ _ | .restore _ => True
  | .loadChallenge index => 0 ≤ index ∧ index < challenges
  | _ => False

namespace Operation

variable {d : Desk} {op : Operation}

theorem pacer_of_ends (hrunning : d.running = true) (h : op.Ends d.catalog.challenges.length) :
    (op.apply d).desk.pacer = { d.pacer with handle := none }.stop .idle := by
  cases op with
  | pause => exact Desk.pacer_pause hrunning
  | reset => exact d.pacer_reset.trans d.pacer_stopRun
  | loadTape cells head => exact d.pacer_stopRun
  | restore s => exact (congrArg Gears.pacer (d.gears_restore s)).trans d.pacer_stopRun
  | loadChallenge index =>
    exact (congrArg Gears.pacer (Desk.gears_loadChallenge h)).trans d.pacer_stopRun
  | _ => exact h.elim

theorem pacer_of_not_ends (hrunning : d.running = true)
    (h : ¬ op.Ends d.catalog.challenges.length) :
    ∃ delay, (op.apply d).desk.pacer = { d.pacer with delay := delay } := by
  refine ⟨(op.apply d).desk.pacer.delay, ?_⟩
  by_cases hedit : op.Edits
  · have hpacer : (op.apply d).desk.pacer = d.pacer := congrArg Gears.pacer (hedit.still d).1
    rw [hpacer]
  cases op with
  | step =>
    show d.step.desk.pacer = { d.pacer with delay := d.step.desk.pacer.delay }
    rw [Desk.step, hrunning]
    rfl
  | run =>
    show d.run.desk.pacer = { d.pacer with delay := d.run.desk.pacer.delay }
    rw [Desk.run_of_running hrunning]
    rfl
  | undo =>
    show d.undo.desk.pacer = { d.pacer with delay := d.undo.desk.pacer.delay }
    rw [Desk.undo, if_pos hrunning]
    rfl
  | loadChallenge index =>
    show (d.loadChallenge index).desk.pacer =
      { d.pacer with delay := (d.loadChallenge index).desk.pacer.delay }
    have hindex : ¬ (0 ≤ index ∧ index < d.catalog.challenges.length) := h
    rw [Desk.loadChallenge, if_neg hindex]
    rfl
  | setSpeed milliseconds =>
    show (d.setSpeed milliseconds).desk.pacer =
      { d.pacer with delay := (d.setSpeed milliseconds).desk.pacer.delay }
    unfold Desk.setSpeed
    dsimp only
    split <;> rfl
  | pause => exact absurd trivial h
  | reset => exact absurd trivial h
  | loadTape cells head => exact absurd trivial h
  | restore s => exact absurd trivial h
  | _ => exact absurd trivial hedit

end Operation

/-- All that an operation does to the gears if no run begins: it may change the delay, or stop the
pacer. -/
inductive Desk.Turns (d e : Desk) : Prop
  | paced (delay : Int) :
      e.gears = { d.gears with pacer := { d.pacer with delay := delay } } → Turns d e
  | stopped : e.pacer = d.stopRun.pacer →
      (∀ only, d.gears.Sound only → e.gears.Sound only) → Turns d e

namespace Desk

variable {d e : Desk}

theorem Turns.same (h : e.gears = d.gears) : d.Turns e := .paced d.pacer.delay h

theorem Turns.stopRun (h : e.gears = d.stopRun.gears) : d.Turns e :=
  .stopped (congrArg Gears.pacer h) fun _ hd => h ▸ hd.reset

theorem turns_step (d : Desk) : d.Turns d.step.desk := by
  unfold Desk.step
  split
  · exact .same rfl
  · exact .same d.gears_advance

theorem turns_pause (d : Desk) : d.Turns d.pause.desk := by
  cases hrunning : d.running with
  | false =>
    rw [Desk.pause, hrunning]
    exact .same rfl
  | true =>
    refine .stopped ((pacer_pause hrunning).trans d.pacer_stopRun.symm) fun only hd => ?_
    rw [Desk.pause, if_pos hrunning]
    exact hd.pause

theorem turns_undo (d : Desk) : d.Turns d.undo.desk := by
  unfold Desk.undo
  split
  · exact .same rfl
  · dsimp only
    split <;> exact .stopRun rfl

theorem turns_reset (d : Desk) : d.Turns d.reset.desk := by
  refine .stopped d.pacer_reset fun only hd => ?_
  obtain ⟨e, he, hreset⟩ := d.gears_reset
  have hsound : e.gears.Sound only := he ▸ hd.reset
  rcases hreset with hreset | hreset
  · exact hreset ▸ hsound
  · exact hreset ▸ sound_clearSave hsound

theorem turns_loadChallenge (d : Desk) (index : Int) : d.Turns (d.loadChallenge index).desk := by
  by_cases hindex : 0 ≤ index ∧ index < d.catalog.challenges.length
  · exact .stopRun (gears_loadChallenge hindex)
  · rw [Desk.loadChallenge, if_neg hindex]
    exact .same rfl

theorem turns_setSpeed (d : Desk) (milliseconds : Int) :
    d.Turns (d.setSpeed milliseconds).desk := by
  unfold Desk.setSpeed
  dsimp only
  split
  · exact .same rfl
  · exact .paced _ rfl

theorem Turns.sound {only : Prop} (h : d.Turns e) (hd : d.gears.Sound only) :
    e.gears.Sound only := by
  cases h with
  | paced delay hgears =>
    obtain ⟨⟨hnumbered, hheld, hsole⟩, hkeeper, hcurrent, htold⟩ := hd
    rw [hgears]
    exact ⟨⟨hnumbered, hheld, hsole⟩, hkeeper, hcurrent, htold⟩
  | stopped _ hsound => exact hsound only hd

theorem Turns.handle (h : d.Turns e) (hnone : d.pacer.handle = none) :
    e.pacer.handle = none := by
  cases h with
  | paced delay hgears => exact (congrArg (fun g => g.pacer.handle) hgears).trans hnone
  | stopped hpacer _ =>
    rw [hpacer, pacer_stopRun]
    rfl

theorem Turns.idle (h : d.Turns e) (hidle : d.running = false) : e.running = false := by
  cases h with
  | paced delay hgears => exact (congrArg (fun g => g.pacer.running) hgears).trans hidle
  | stopped hpacer _ =>
    rw [running, hpacer, pacer_stopRun]
    rfl

theorem Turns.awaited (h : d.Turns e) (hd : d.running = false → d.pacer.handle = none)
    (hidle : e.running = false) : e.pacer.handle = none := by
  cases h with
  | paced delay hgears =>
    have hrunning : e.running = d.running := congrArg (fun g => g.pacer.running) hgears
    exact (congrArg (fun g => g.pacer.handle) hgears).trans (hd (hrunning.symm.trans hidle))
  | stopped hpacer _ =>
    rw [hpacer, pacer_stopRun]
    rfl

end Desk

theorem Operation.turns {op : Operation} (hop : op ≠ .run) (d : Desk) :
    d.Turns (op.apply d).desk := by
  by_cases hedit : op.Edits
  · exact .same (hedit.still d).1
  cases op with
  | step => exact d.turns_step
  | run => exact absurd rfl hop
  | pause => exact d.turns_pause
  | undo => exact d.turns_undo
  | reset => exact d.turns_reset
  | loadChallenge index => exact d.turns_loadChallenge index
  | loadTape cells head => exact .stopRun rfl
  | restore s => exact .stopRun (d.gears_restore s)
  | setSpeed milliseconds => exact d.turns_setSpeed milliseconds
  | _ => exact absurd trivial hedit

theorem Operation.running_of_idle {d : Desk} {op : Operation} (hop : op ≠ .run)
    (hidle : d.running = false) : (op.apply d).desk.running = false := (op.turns hop d).idle hidle

end TapeLab
