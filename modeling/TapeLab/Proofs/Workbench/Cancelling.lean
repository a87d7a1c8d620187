import TapeLab.Proofs.Workbench.Deeds
import TapeLab.Proofs.Workbench.Geared
import TapeLab.Proofs.Workbench.Runs
import TapeLab.Proofs.Workbench.Waiting

/-!
Cancelling a run. Whoever ends a run does so for good, be it between two ticks or in the middle of
one, when its timer has fired and there is nothing to cancel: then only the phase tells the tick
that it is not to go on. Listeners may do whatever they like, but they let no run begin.
-/

namespace TapeLab

namespace Desk

variable {d e : Desk}

variable {run : Nat}

structure Cancelled (run : Nat) (d : Desk) : Prop where
  sound : d.gears.Sound True
  idle : d.running = false
  handle : d.pacer.handle = none
  told : d.pacer.ending? run = some ⟨run, .idle⟩

theorem cancelled_of_ends (hsound : d.gears.Sound True) {op : Operation}
    (hends : op.Ends d.catalog.challenges.length) (hrun : d.pacer.current = some run) :
    Cancelled run (op.apply d).desk := by
  have hrunning : d.running = true := by
    have hcurrent := hsound.coherent.current
    rw [show d.gears.pacer = d.pacer from rfl, hrun] at hcurrent
    exact hcurrent.symm
  have hpacer := Operation.pacer_of_ends hrunning hends
  have hop : op ≠ .run := by
    rintro rfl
    exact hends
  refine ⟨(op.turns hop d).sound hsound, ?_, ?_, ?_⟩
  · rw [running, hpacer]
    rfl
  · rw [hpacer]
    rfl
  · rw [hpacer]
    exact Pacer.ending?_stop (p := { d.pacer with handle := none }) hrun

theorem Cancelled.apply (h : Cancelled run d) {op : Operation} (hop : op ≠ .run) :
    Cancelled run (op.apply d).desk := by
  have hturns := op.turns hop d
  have hendings : (op.apply d).desk.pacer.endings = d.pacer.endings :=
    Operation.endings_of_idle (h.sound.coherent.current_eq_none h.idle)
  refine ⟨hturns.sound h.sound, hturns.idle h.idle, hturns.handle h.handle, ?_⟩
  rw [Pacer.ending?, hendings]
  exact h.told

theorem Cancelled.ticks (h : Cancelled run d) : d.ticks = [] :=
  Geared.ticks_eq_nil ⟨h.sound, fun _ => h.handle⟩ h.idle

end Desk

namespace Workbench

variable {c : Catalog} {kept : Session → Prop} {asked : Operation → Prop} {w v u : Workbench}
  {x : Deed} {run : Nat}

theorem steady_catalog (asked : Operation → Prop) (c : Catalog) :
    Steady asked fun d => d.catalog = c where
  note _ _ h := h
  save d h := (congrArg Work.catalog d.work_scheduleSave).trans h
  apply d op _ h := (op.becomes (fun _ => True) d fun _ _ => trivial).catalog.trans h

theorem steady_cancelled (hasked : ∀ op, asked op → op ≠ .run) (run : Nat) :
    Steady asked (Desk.Cancelled run) where
  note _ _ h := ⟨h.sound, h.idle, h.handle, h.told⟩
  save d h := by
    have hpacer := d.pacer_scheduleSave
    refine ⟨Desk.sound_scheduleSave h.sound, ?_, ?_, ?_⟩
    · rw [Desk.running, hpacer]
      exact h.idle
    · rw [hpacer]
      exact h.handle
    · rw [hpacer]
      exact h.told
  apply _ op hop h := h.apply (hasked op hop)

/-- What becomes of a workbench by an operation or by a tick, and a deed that is done meanwhile. -/
inductive Happens (w : Workbench) : Deed → Workbench → Prop
  | operation (op : Operation) : Happens w ⟨op, w, (w.perform op).1⟩ (w.perform op).1
  | announced {op : Operation} {x : Deed} :
      Tells w.host.depth { w with desk := (op.apply w.desk).desk } (op.apply w.desk).change x →
      Happens w x (w.perform op).1
  | tick {id : Nat} {a : Agenda Alarm} {x : Deed} :
      w.desk.agenda.alarms.Perm ((id, .tick) :: a.alarms) → a.next = w.desk.agenda.next →
      w.desk.running = true →
      Tells w.host.depth { w with desk := (w.withAgenda a).tickStep.desk }
        (w.withAgenda a).tickStep.change x →
      Happens w x ((w.withAgenda a).fire .tick)

theorem Happens.within (hasked : ∀ op, asked op → op ≠ .run) (hls : Modest asked w.listeners)
    (hgeared : w.desk.Geared) (hcatalog : w.desk.catalog = c) (hx : Happens w x v) :
    v.listeners = w.listeners ∧ ∃ start finish : Desk,
      start.Geared ∧ start.catalog = c ∧ x.Within asked start finish ∧
      (finish.running = false → v.desk = finish) := by
  cases hx with
  | operation op =>
    exact ⟨(geared_perform hls hgeared op).listeners, w.desk, _, hgeared, hcatalog,
      ⟨.none, doings_perform hls op, .none⟩, fun _ => rfl⟩
  | @announced op _ hx =>
    have hwithin := Tells.within (w := { w with desk := (op.apply w.desk).desk }) hls hx
    refine ⟨(geared_perform hls hgeared op).listeners, _, _, hgeared.apply op,
      (op.becomes (fun _ => True) w.desk fun _ _ => trivial).catalog.trans hcatalog, hwithin,
      fun _ => ?_⟩
    rw [perform_fst]
    rfl
  | @tick id a _ halarms hnext hrunning hx =>
    have hunheld := unheld_tickStep hgeared halarms hnext
    have hlisteners := (unheld_stepAnnounced hasked hls hgeared halarms hnext).listeners
    have hstepped : (w.withAgenda a).tickStep.desk.catalog = c :=
      (congrArg Work.catalog (Desk.work_advance _)).trans hcatalog
    have hwithin : x.Within asked (w.withAgenda a).tickStep.desk
        (w.withAgenda a).stepAnnounced.1.desk :=
      Tells.within (w := { w.withAgenda a with desk := (w.withAgenda a).tickStep.desk }) hls hx
    obtain ⟨more, htick⟩ := tick_of_stepAnnounced (w := w.withAgenda a) hrunning
    show (w.withAgenda a).tick.listeners = _ ∧ _
    rw [show (w.withAgenda a).fire .tick = (w.withAgenda a).tick from rfl]
    rcases htick with htick | htick <;> rw [htick]
    · exact ⟨hlisteners, _, _, hunheld.geared, hstepped, hwithin, fun _ => rfl⟩
    · exact ⟨hlisteners, _, _, hunheld.geared, hstepped, hwithin,
        fun hidle => Desk.endTick_of_idle hidle _⟩

/-- What can become of a workbench as long as nobody runs or steps the machine. -/
inductive Quiet (asked : Operation → Prop) (w : Workbench) : Workbench → Prop
  | refl : Quiet asked w w
  | enter {v : Workbench} : Quiet asked w v → Quiet asked w v.enterLoop
  | perform {v : Workbench} {op : Operation} :
      Quiet asked w v → op ≠ .run → op ≠ .step → Quiet asked w (v.perform op).1
  | stir {v u : Workbench} : Quiet asked w v → Stirs v u → Quiet asked w u
  | subscribe {v : Workbench} {l : Listener} :
      Quiet asked w v → (∀ op, l.Asks op → asked op) → Quiet asked w (v.subscribe l)
  | unsubscribe {v u : Workbench} {key : String} :
      Quiet asked w v → v.unsubscribe? key = some u → Quiet asked w u

theorem cancelled_stirs (h : w.desk.Cancelled run) (hv : Stirs w v) :
    v.listeners = w.listeners ∧ v.desk.Cancelled run ∧ v.desk.work = w.desk.work := by
  cases hv with
  | pass halarms hnext =>
    exact ⟨rfl, ⟨h.sound.pass halarms hnext, h.idle, h.handle, h.told⟩, rfl⟩
  | @fire id alarm a halarms hnext =>
    cases alarm with
    | tick =>
      -- the pacer would know of the timer that has fired
      have hheld := (h.sound.beginTick halarms hnext).1 trivial
      exact absurd (hheld.symm.trans h.handle) (by simp)
    | keeper alarm =>
      have hpacer := (w.withAgenda a).desk.pacer_answerKeeper alarm
      refine ⟨rfl, ⟨Desk.sound_answerKeeper h.sound halarms hnext, ?_, ?_, ?_⟩,
        Desk.work_answerKeeper _ alarm⟩
      · exact (congrArg Pacer.running hpacer).trans h.idle
      · exact (congrArg Pacer.handle hpacer).trans h.handle
      · exact (congrArg (fun p : Pacer => p.ending? run) hpacer).trans h.told

theorem Quiet.cancelled (hasked : ∀ op, asked op → op ≠ .run) (hls : Modest asked w.listeners)
    (h : w.desk.Cancelled run) (hu : Quiet asked w u) :
    Modest asked u.listeners ∧ u.desk.Cancelled run := by
  induction hu with
  | refl => exact ⟨hls, h⟩
  | enter _ ih => exact ⟨ih.1, ih.2.sound, ih.2.idle, ih.2.handle, ih.2.told⟩
  | @perform v op _ hrun _ ih =>
    have happly : (op.apply v.desk).desk.Cancelled run := ih.2.apply hrun
    obtain ⟨hlisteners, hcancelled, -⟩ := (steady_cancelled hasked run).perform ih.1 happly
    exact ⟨hlisteners ▸ ih.1, hcancelled⟩
  | stir _ hv ih =>
    obtain ⟨hlisteners, hcancelled, -⟩ := cancelled_stirs ih.2 hv
    exact ⟨hlisteners ▸ ih.1, hcancelled⟩
  | subscribe _ hl ih => exact ⟨modest_subscribe ih.1 hl, ih.2⟩
  | unsubscribe _ hv ih =>
    obtain ⟨hls, hdesk⟩ := modest_unsubscribe hv ih.1
    exact ⟨hls, hdesk ▸ ih.2⟩

theorem work_of_stirs (h : w.desk.Cancelled run) (hu : Relation.ReflTransGen Stirs w u) :
    u.desk.Cancelled run ∧ u.desk.work = w.desk.work := by
  induction hu with
  | refl => exact ⟨h, rfl⟩
  | tail _ hv ih =>
    obtain ⟨-, hcancelled, hwork⟩ := cancelled_stirs ih.1 hv
    exact ⟨hcancelled, hwork.trans ih.2⟩

/-- Whoever ends a run, between two events or in the middle of one, ends it for good. When the
operation has returned, no timer is set for a tick; the rest of the event, a tick perhaps, is what
listeners ask for, who do not run or step the machine; and from then on, as long as nobody does, no
timer is set for a tick, who waits for the run learns at once that the pacer is idle, and nothing
that happens by itself changes the machine. If listeners ask for nothing that does, the machine
stays as the operation has left it. -/
theorem cancelled_run_stays (h : Arises c kept (Reaction.Asking asked) w)
    (hasked : ∀ op, asked op → op ≠ .run ∧ op ≠ .step) (hx : Happens w x v)
    (hends : x.op.Ends c.challenges.length) (hrun : x.before.desk.pacer.current = some run) :
    x.after.desk.running = false ∧ x.after.desk.ticks = [] ∧
    Doings asked (x.op.apply x.before.desk).desk x.after.desk ∧
    Doings asked x.after.desk v.desk ∧
    (∀ u, Quiet asked v u → u.desk.running = false ∧ u.desk.ticks = [] ∧
      (∀ patience bell,
        clockwork.awaitEnding patience run bell u = (u, some ⟨run, .idle⟩)) ∧
      ∀ s, Stirs u s → s.desk.work = u.desk.work) ∧
    ((∀ op, asked op → op.Pacing) → ∀ u, Relation.ReflTransGen Stirs v u →
      u.desk.work = (x.op.apply x.before.desk).desk.work) := by
  have hcalm (op : Operation) (hop : asked op) : op ≠ .run := (hasked op hop).1
  have hcatalog : w.desk.work.catalog = c :=
    (h.keeps (P := fun u => u.catalog = c) (fun _ _ => rfl)
      fun _ _ hu huv => huv.catalog.trans hu).2
  obtain ⟨hreacting, hgeared⟩ := h.geared fun _ => hcalm
  have hls : Modest asked w.listeners := hreacting.modest fun _ hop => hop
  obtain ⟨hlisteners, start, finish, hstart, hc, hwithin, hfinish⟩ :=
    hx.within hcalm hls hgeared hcatalog
  -- the run that is ended is going on, and this is known of no other timer for a tick
  have hbefore := (steady_geared asked).doings hstart hwithin.earlier
  have hsame := (steady_catalog asked c).doings hc hwithin.earlier
  have hdone : (x.op.apply x.before.desk).desk.Cancelled run :=
    Desk.cancelled_of_ends hbefore.sound (hsame.symm ▸ hends) hrun
  have hafter := (steady_cancelled hcalm run).doings hdone hwithin.during
  have hover := (steady_cancelled hcalm run).doings hafter hwithin.later
  obtain rfl : v.desk = finish := hfinish hover.idle
  refine ⟨hafter.idle, hafter.ticks, hwithin.during, hwithin.later, fun u hu => ?_,
    fun hpacing u hu => ?_⟩
  · obtain ⟨-, hcancelled⟩ := hu.cancelled hcalm (hlisteners ▸ hls) hover
    exact ⟨hcancelled.idle, hcancelled.ticks, awaitEnding_of_told hcancelled.told,
      fun s hs => (cancelled_stirs hcancelled hs).2.2⟩
  · calc u.desk.work = v.desk.work := (work_of_stirs hover hu).2
      _ = x.after.desk.work := hwithin.later.work hpacing
      _ = (x.op.apply x.before.desk).desk.work := hwithin.during.work hpacing

def reloader : Listener where
  key := "reloader"
  react d := if d.running && 0 < d.machine.steps then [.perform (.loadTape ["1"] 0)] else []

/-- The tape is loaded in the middle of a tick, whose timer has fired. -/
theorem cancelled_in_tick :
    ∃ w x v, Arises .standard (fun _ => True) (Reaction.Asking (· = .loadTape ["1"] 0)) w ∧
      Happens w x v ∧ x.op = .loadTape ["1"] 0 ∧ x.before.desk.running = true ∧
      x.before.desk.ticks = [] ∧ x.before.desk.machine.steps = 1 ∧ v.desk.ticks = [] ∧
      v.desk.machine.tape = .ofCells ["1"] ∧ v.desk.machine.steps = 0 ∧
      clockwork.awaitEnding 1 0 none v = (v, some ⟨0, .idle⟩) := by
  have hasks (d : Desk) (r : Reaction) (hr : r ∈ reloader.react d) :
      r.Asking (· = .loadTape ["1"] 0) Host.plain := by
    unfold reloader at hr
    dsimp only at hr
    split at hr
    · obtain rfl := List.mem_singleton.1 hr
      rfl
    · cases hr
  obtain ⟨w, hw⟩ :
      ∃ w, w = ((firstBench.subscribe reloader).perform .run).1 := ⟨_, rfl⟩
  have harises : Arises .standard (fun _ => True) (Reaction.Asking (· = .loadTape ["1"] 0)) w :=
    hw ▸ ((arises_firstBench _ _).subscribe hasks fun _ _ _ _ => trivial).perform
      fun _ _ => trivial
  obtain ⟨a, ha⟩ : ∃ a : Agenda Alarm, a = { w.desk.agenda with queue := #[] } := ⟨_, rfl⟩
  obtain ⟨u, hu⟩ : ∃ u : Workbench, u = { w with
    desk := (w.withAgenda a).tickStep.desk.scheduleSave } := ⟨_, rfl⟩
  have hlisteners : u.listeners = [reloader] := by rw [hu, hw]; rfl
  obtain ⟨hrunning, hnone, hsteps, hcurrent, hreact⟩ : u.desk.running = true ∧
      u.desk.ticks = [] ∧ u.desk.machine.steps = 1 ∧ u.desk.pacer.current = some 0 ∧
      reloader.react u.desk = [.perform (.loadTape ["1"] 0)] := by
    rw [hu, ha, hw]
    decide +kernel
  have hannounces : Announces w.host.depth u
      ⟨.loadTape ["1"] 0, u, (serve 100 (.perform (.loadTape ["1"] 0)) u).1⟩ := by
    rw [hw]
    exact @Announces.reaction 100 u u u [] [] reloader [] [] _ _ hlisteners rfl hreact rfl .this
  have hchange : (w.withAgenda a).tickStep.change = some .kept := by
    rw [ha, hw]
    decide +kernel
  have hhappens : Happens w
      ⟨.loadTape ["1"] 0, u, (serve 100 (.perform (.loadTape ["1"] 0)) u).1⟩
      ((w.withAgenda a).fire .tick) :=
    @Happens.tick w 0 a _ (by rw [ha, hw]; decide +kernel) (by rw [ha])
      (by rw [hw]; decide +kernel) (hchange ▸ .kept (hu ▸ hannounces))
  have hloaded : ((w.withAgenda a).fire .tick).desk.machine.tape = .ofCells ["1"] ∧
      ((w.withAgenda a).fire .tick).desk.machine.steps = 0 := by
    rw [ha, hw]
    decide +kernel
  obtain ⟨-, -, -, -, hover, -⟩ := cancelled_run_stays harises
    (fun op hop => by rw [hop]; exact ⟨by simp, by simp⟩) hhappens trivial hcurrent
  obtain ⟨-, hticks, hended, -⟩ := hover _ .refl
  exact ⟨w, _, _, harises, hhappens, rfl, hrunning, hnone, hsteps, hticks, hloaded.1, hloaded.2,
    hended 1 none⟩

end Workbench

end TapeLab
