import TapeLab.Proofs.Workbench.Arises
import TapeLab.Proofs.Workbench.Saving

/-!
Gears that turn for a run only: the timer that the pacer knows of is the only one for a tick, and
there is none without a run. As long as listeners let no run begin that stays so, also if they fail
in the middle of a tick and leave the run without a timer.
-/

namespace TapeLab

namespace Desk

variable {d e : Desk}

/-- The timer that the pacer knows of is the only one for a tick, and there is none without a
run. -/
structure Geared (d : Desk) : Prop where
  sound : d.gears.Sound True
  awaited : d.running = false → d.pacer.handle = none

theorem Geared.turns (h : d.Geared) (he : d.Turns e) : e.Geared :=
  ⟨he.sound h.sound, he.awaited h.awaited⟩

theorem Geared.run (h : d.Geared) : d.run.desk.Geared := by
  rw [run_eq]
  split
  · next hfree =>
    have hidle : d.running = false := by simp [Desk.running, Pacer.running, hfree.1]
    split
    · refine ⟨h.sound.schedule (fun _ => h.awaited hidle) rfl (h.sound.coherent.begun hidle), ?_⟩
      intro hover
      cases hover
    · exact h
  · exact h

theorem Geared.apply (h : d.Geared) (op : Operation) : (op.apply d).desk.Geared := by
  by_cases hop : op = .run
  · subst hop
    exact h.run
  · exact h.turns (op.turns hop d)

theorem Geared.ticks_of_handle (h : d.Geared) (hnone : d.pacer.handle = none) : d.ticks = [] := by
  have hticks := (h.sound.pacer.sole trivial).timersFor h.sound.pacer.numbered
  rw [show d.gears.pacer.handle = none from hnone] at hticks
  exact hticks

theorem Geared.ticks_eq_nil (h : d.Geared) (hidle : d.running = false) : d.ticks = [] :=
  h.ticks_of_handle (h.awaited hidle)

theorem InStep.of_geared {only : Prop} (h : d.InStep False) (hgeared : only → d.Geared)
    (hidle : d.running = false) : d.InStep only := by
  obtain ⟨⟨⟨hnumbered, hheld, -⟩, hkeeper, hcoherent⟩, -, -, hhalted⟩ := h
  refine ⟨⟨⟨hnumbered, hheld, fun ho => (hgeared ho).sound.pacer.sole trivial⟩, hkeeper, hcoherent⟩,
    fun ho => ?_, fun _ hrunning => ?_, hhalted⟩
  · rw [(hgeared ho).awaited hidle, hidle]
    rfl
  · cases hidle.symm.trans hrunning

structure Unheld (d : Desk) : Prop where
  sound : d.gears.Sound True
  handle : d.pacer.handle = none

theorem Unheld.geared (h : d.Unheld) : d.Geared := ⟨h.sound, fun _ => h.handle⟩

theorem Unheld.endTick (h : d.Unheld) (more : Bool) : (d.endTick more).Geared := by
  unfold Desk.endTick Pacer.endTick
  cases hrunning : d.pacer.running with
  | false => exact h.geared
  | true =>
    simp only [Bool.not_true, Bool.false_eq_true, if_false]
    cases more with
    | true =>
      refine ⟨h.sound.schedule (fun _ => h.handle) rfl h.sound.coherent, fun hidle => ?_⟩
      cases hrunning.symm.trans hidle
    | false =>
      obtain ⟨⟨hnumbered, hheld, hsole⟩, hkeeper, hcoherent⟩ := h.sound
      refine ⟨⟨⟨hnumbered, hheld, hsole⟩, hkeeper, hcoherent.stop ?_⟩, fun _ => h.handle⟩
      cases d.machine.halted <;> simp

end Desk

namespace Workbench

variable {c : Catalog} {kept : Session → Prop} {asked : Operation → Prop} {w v : Workbench}

theorem steady_geared (asked : Operation → Prop) : Steady asked Desk.Geared where
  note _ _ h := ⟨h.sound, h.awaited⟩
  save d h := by
    refine ⟨Desk.sound_scheduleSave h.sound, ?_⟩
    rw [Desk.running, d.pacer_scheduleSave]
    exact h.awaited
  apply _ op _ h := h.apply op

theorem steady_unheld (hasked : ∀ op, asked op → op ≠ .run) : Steady asked Desk.Unheld where
  note _ _ h := ⟨h.sound, h.handle⟩
  save d h := ⟨Desk.sound_scheduleSave h.sound, by rw [d.pacer_scheduleSave]; exact h.handle⟩
  apply d op hop h :=
    have hturns := op.turns (hasked op hop) d
    ⟨hturns.sound h.sound, hturns.handle h.handle⟩

section Geared

variable {id : Nat} {a : Agenda Alarm} (hasked : ∀ op, asked op → op ≠ .run)
  (hls : Modest asked w.listeners) (h : w.desk.Geared)

include h in
theorem unheld_tickStep (halarms : w.desk.agenda.alarms.Perm ((id, .tick) :: a.alarms))
    (hnext : a.next = w.desk.agenda.next) : (w.withAgenda a).tickStep.desk.Unheld := by
  have hgears : (w.withAgenda a).tickStep.desk.gears =
      { w.desk.gears with pacer := w.desk.pacer.beginTick, agenda := a } := Desk.gears_advance _
  refine ⟨?_, congrArg (fun g => g.pacer.handle) hgears⟩
  rw [hgears]
  exact (h.sound.beginTick halarms hnext).2

include hls h in
theorem geared_perform (op : Operation) :
    Stands Desk.Geared w (w.perform op).1 := (steady_geared asked).perform hls (h.apply op)

include hasked hls h

theorem unheld_stepAnnounced (halarms : w.desk.agenda.alarms.Perm ((id, .tick) :: a.alarms))
    (hnext : a.next = w.desk.agenda.next) :
    Stands Desk.Unheld w (w.withAgenda a).stepAnnounced.1 := by
  have htell := (steady_unheld hasked).tell
    (w := { w.withAgenda a with desk := (w.withAgenda a).tickStep.desk }) hls
    (unheld_tickStep h halarms hnext) (w.withAgenda a).tickStep.change
  exact ⟨htell.listeners, htell.desk, htell.host⟩

theorem geared_fire {alarm : Alarm}
    (halarms : w.desk.agenda.alarms.Perm ((id, alarm) :: a.alarms))
    (hnext : a.next = w.desk.agenda.next) :
    Stands Desk.Geared w ((w.withAgenda a).fire alarm) := by
  cases alarm with
  | keeper alarm =>
    have hpacer := (w.withAgenda a).desk.pacer_answerKeeper alarm
    refine ⟨rfl, ⟨Desk.sound_answerKeeper h.sound halarms hnext, fun hidle => ?_⟩, rfl⟩
    have hheld := congrArg Pacer.handle hpacer
    exact hheld.trans (h.awaited ((congrArg Pacer.running hpacer).symm.trans hidle))
  | tick =>
    show Stands Desk.Geared w (w.withAgenda a).tick
    cases hrunning : w.desk.running with
    | false =>
      rw [tick_of_idle (w := w.withAgenda a) hrunning]
      exact ⟨rfl, ⟨(h.sound.beginTick halarms hnext).2, fun _ => rfl⟩, rfl⟩
    | true =>
      obtain ⟨hlisteners, hunheld, hhost⟩ := unheld_stepAnnounced hasked hls h halarms hnext
      obtain ⟨more, htick⟩ := tick_of_stepAnnounced (w := w.withAgenda a) hrunning
      rcases htick with htick | htick <;> rw [htick]
      · exact ⟨hlisteners, hunheld.geared, hhost⟩
      · exact ⟨hlisteners, hunheld.endTick more, hhost⟩

end Geared

theorem Arises.geared {asked : Host → Reaction → Prop} (h : Arises c kept asked w)
    (hasked : ∀ host op, asked host (.perform op) → op ≠ .run) :
    Reacting (asked w.host) w.listeners ∧ w.desk.Geared := by
  induction h with
  | @new _ _ _ _ d _ hd =>
    have hstep : d.InStep True := inStep_new hd
    refine ⟨fun l hl => absurd hl List.not_mem_nil, hstep.sound, fun hidle => ?_⟩
    simpa [show d.running = false from hidle] using hstep.awaited trivial
  | enter _ ih => exact ⟨ih.1, ih.2.sound, ih.2.awaited⟩
  | @perform w op _ _ ih =>
    obtain ⟨hlisteners, hgeared, hhost⟩ :=
      geared_perform (ih.1.modest fun _ hop => hop) ih.2 op
    exact ⟨hlisteners ▸ hhost ▸ ih.1, hgeared⟩
  | @stir w _ _ hv ih =>
    cases hv with
    | fire halarms hnext =>
      obtain ⟨hlisteners, hgeared, hhost⟩ :=
        geared_fire (hasked _) (ih.1.modest fun _ hop => hop) ih.2 halarms hnext
      exact ⟨hlisteners ▸ hhost ▸ ih.1, hgeared⟩
    | pass halarms hnext => exact ⟨ih.1, ih.2.sound.pass halarms hnext, ih.2.awaited⟩
  | subscribe _ hl _ ih => exact ⟨reacting_subscribe ih.1 hl, ih.2⟩
  | unsubscribe _ hv ih =>
    obtain rfl := unsubscribe?_cases hv
    exact ⟨fun l hl => ih.1 l (List.mem_of_mem_eraseP hl), ih.2⟩

end Workbench

namespace Desk

theorem sound_flush {only : Prop} {d : Desk} {k : Keeper} (hk : d.keeper = some k)
    (h : d.gears.Sound only) :
    d.flush.1.gears.Sound only ∧ d.flush.1.gears.keeper.bind Keeper.handle = none := by
  unfold flush
  rw [hk]
  dsimp only
  rw [gears_withWork]
  unfold Keeper.flush
  rw [Keeper.cancel_eq]
  dsimp only
  split
  · exact ⟨h.dropSave hk rfl, rfl⟩
  · split
    · exact ⟨h.dropSave hk rfl, rfl⟩
    · unfold Keeper.complain
      split <;> exact ⟨h.dropSave hk rfl, rfl⟩

theorem pacer_flush (d : Desk) : d.flush.1.pacer = d.pacer := by
  unfold flush
  split
  · rfl
  · exact congrArg Gears.pacer (gears_withWork d _)

theorem gears_sound_flush {only : Prop} {d : Desk} (h : d.gears.Sound only) :
    d.flush.1.gears.Sound only := by
  cases hk : d.keeper with
  | none =>
    unfold flush
    rw [hk]
    exact h
  | some k => exact (sound_flush hk h).1

theorem inStep_flush {only : Prop} {d : Desk} (h : d.InStep only) : d.flush.1.InStep only := by
  have hpacer := pacer_flush d
  have hrunning : d.flush.1.running = d.running := congrArg Pacer.running hpacer
  have hmachine : d.flush.1.machine = d.machine := congrArg Work.machine d.work_flush
  refine ⟨gears_sound_flush h.sound, ?_, ?_, ?_⟩
  · rw [hpacer, hrunning]
    exact h.awaited
  · rw [hrunning, hmachine]
    exact h.running
  · rw [hpacer, hmachine]
    exact h.halted

theorem Geared.flush {d : Desk} (h : d.Geared) : d.flush.1.Geared := by
  refine ⟨gears_sound_flush h.sound, fun hidle => ?_⟩
  rw [pacer_flush]
  exact h.awaited ((congrArg Pacer.running (pacer_flush d)).symm.trans hidle)

end Desk

namespace Workbench

variable {c : Catalog} {w v : Workbench}

/-- The work is in its bounds, the gears turn for a run only, and listeners ask for nothing, but
they may fail. -/
structure Governed (c : Catalog) (w : Workbench) : Prop where
  orderly : Orderly c False (Reaction.Asking fun _ => False) w
  geared : w.desk.Geared

namespace Governed

theorem silent (h : Governed c w) : Modest (fun _ => False) w.listeners := h.orderly.modest

theorem coherent (h : Governed c w) : w.desk.pacer.Coherent := h.geared.sound.coherent

theorem note (h : Governed c w) (j : Journal) :
    Governed c { w with desk := { w.desk with journal := j } } :=
  ⟨h.orderly.note j, h.geared.sound, h.geared.awaited⟩

theorem perform (h : Governed c w) {op : Operation} (hop : Restores (Work.Fits c) op) :
    Governed c (w.perform op).1 :=
  ⟨h.orderly.perform hop, (geared_perform h.silent h.geared op).desk⟩

theorem stir (h : Governed c w) (hv : Stirs w v) : Governed c v := by
  refine ⟨h.orderly.stir (fun hfalse => hfalse.elim) hv, ?_⟩
  cases hv with
  | fire halarms hnext =>
    exact (geared_fire (fun _ hop => hop.elim) h.silent h.geared halarms hnext).desk
  | pass halarms hnext => exact ⟨h.geared.sound.pass halarms hnext, h.geared.awaited⟩

theorem listen (h : Governed c w) {ls : List Listener} (hls : Modest (fun _ => False) ls) :
    Governed c { w with listeners := ls } := by
  refine ⟨⟨fun l hl d r hr => ?_, hls.mono fun _ hop => hop.elim, h.orderly.catalog,
    h.orderly.bounded, h.orderly.inStep⟩, h.geared⟩
  cases r with
  | perform op => exact hls l hl op ⟨d, hr⟩
  | _ => trivial

theorem flush (h : Governed c w) : Governed c w.flush := by
  have hwork : w.flush.desk.work = w.desk.work := w.desk.work_flush
  exact ⟨⟨h.orderly.listeners, h.orderly.restores, hwork ▸ h.orderly.catalog,
    hwork ▸ h.orderly.bounded, Desk.inStep_flush h.orderly.inStep⟩, h.geared.flush⟩

end Governed

theorem Arises.governed {asked : Host → Reaction → Prop} (h : Arises c (Work.Fits c) asked w)
    (hasked : ∀ host op, ¬ asked host (.perform op)) : Governed c w := by
  have horderly := h.orderly_of_any
  refine ⟨⟨fun l hl d r hr => ?_, horderly.restores, horderly.catalog, horderly.bounded,
    horderly.inStep⟩, (h.geared fun host op hop => absurd hop (hasked host op)).2⟩
  cases r with
  | perform op => exact hasked w.host op (horderly.listeners l hl d _ hr)
  | _ => trivial

end Workbench

end TapeLab
