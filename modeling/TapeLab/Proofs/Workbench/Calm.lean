import TapeLab.Proofs.Desk.Gears
import TapeLab.Proofs.Workbench.Announcement

/-!
Listeners that do not interfere: they listen, or they stop a run or change its speed; or they let a
run begin, too, which a halted machine refuses. What they are told of leaves the same work.
-/

namespace TapeLab

def Operation.Calming : Operation → Prop
  | .pause | .setSpeed _ => True
  | _ => False

def Operation.Pacing : Operation → Prop
  | .run | .pause | .setSpeed _ => True
  | _ => False

theorem Operation.Calming.pacing {op : Operation} (h : op.Calming) : op.Pacing := by
  cases op with
  | pause => trivial
  | setSpeed _ => trivial
  | _ => exact h.elim

theorem Operation.Calming.ne_run {op : Operation} (h : op.Calming) : op ≠ .run := by
  rintro rfl
  exact h

namespace Desk

variable {d : Desk}

theorem run_of_halted (h : d.machine.halted = true) : d.run = .refused d false := by
  rw [run, if_pos h]

theorem running_setSpeed (d : Desk) (milliseconds : Int) :
    (d.setSpeed milliseconds).desk.running = d.running := by
  unfold setSpeed
  dsimp only
  split <;> rfl

end Desk

theorem Operation.Pacing.work {op : Operation} (h : op.Pacing) (d : Desk) :
    (op.apply d).desk.work = d.work := by
  cases op with
  | run => exact d.work_run
  | pause => exact d.work_pause
  | setSpeed milliseconds => exact d.work_setSpeed milliseconds
  | _ => exact h.elim

namespace Workbench

variable {w : Workbench}

abbrev Calm (ls : List Listener) : Prop := Modest Operation.Calming ls

theorem Modest.mono {asked asked' : Operation → Prop} {ls : List Listener} (h : Modest asked ls)
    (hle : ∀ op, asked op → asked' op) : Modest asked' ls :=
  fun l hl op hop => hle op (h l hl op hop)

theorem steady_pacing (u : Work) (idle : Prop) :
    Steady (fun op => op.Pacing ∧ (op = .run → idle → u.machine.halted = true))
      fun d => d.work = u ∧ (idle → d.running = false) where
  note _ _ h := h
  save d h := by
    refine ⟨(Desk.work_scheduleSave d).trans h.1, ?_⟩
    unfold Desk.scheduleSave
    split <;> exact h.2
  apply d op hop h := by
    refine ⟨(hop.1.work d).trans h.1, fun hidle => ?_⟩
    have hstopped := h.2 hidle
    cases op with
    | run =>
      have hhalted : d.machine.halted = true := by
        have hu := hop.2 rfl hidle
        rwa [← h.1] at hu
      show d.run.desk.running = false
      rwa [Desk.run_of_halted hhalted]
    | pause =>
      show d.pause.desk.running = false
      rwa [Desk.pause, hstopped]
    | setSpeed milliseconds => exact (d.running_setSpeed milliseconds).trans hstopped
    | _ => exact hop.1.elim

theorem pacer_tell (hls : Modest (fun _ => False) w.listeners) (change : Option Change) :
    (w.tell change).1.desk.pacer = w.desk.pacer := by
  have hsteady : Steady (fun _ => False) fun d => d.pacer = w.desk.pacer :=
    ⟨fun _ _ h => h, fun d h => d.pacer_scheduleSave.trans h, fun _ _ h => h.elim⟩
  exact (hsteady.tell hls rfl change).desk

theorem pacer_perform (hls : Modest (fun _ => False) w.listeners) (op : Operation) :
    (w.perform op).1.desk.pacer = (op.apply w.desk).desk.pacer := by
  rw [perform_fst]
  exact pacer_tell (w := { w with desk := (op.apply w.desk).desk }) hls _

theorem paced_tell (hls : Modest Operation.Pacing w.listeners) (change : Option Change) :
    (w.tell change).1.listeners = w.listeners ∧ (w.tell change).1.desk.work = w.desk.work ∧
      (w.desk.machine.halted = true → w.desk.running = false →
        (w.tell change).1.desk.running = false) := by
  have htell := (steady_pacing w.desk.work
    (w.desk.machine.halted = true ∧ w.desk.running = false)).tell
      (hls.mono fun op hop => ⟨hop, fun _ h => h.1⟩) ⟨rfl, And.right⟩ change
  exact ⟨htell.listeners, htell.desk.1, fun hhalted hidle => htell.desk.2 ⟨hhalted, hidle⟩⟩

theorem paced_perform (hls : Modest Operation.Pacing w.listeners) (op : Operation) :
    (w.perform op).1.listeners = w.listeners ∧
      (w.perform op).1.desk.work = (op.apply w.desk).desk.work ∧
      ((op.apply w.desk).desk.machine.halted = true → (op.apply w.desk).desk.running = false →
        (w.perform op).1.desk.running = false) := by
  rw [perform_fst]
  exact paced_tell (w := { w with desk := (op.apply w.desk).desk }) hls _

theorem paced_tick (hls : Modest Operation.Pacing w.listeners) :
    w.tick.listeners = w.listeners ∧
      w.tick.desk.work = if w.desk.running then w.desk.work.advanced else w.desk.work := by
  have hrunning : Desk.running { w.desk with pacer := w.desk.pacer.beginTick } = w.desk.running :=
    rfl
  unfold tick
  dsimp only
  rw [hrunning]
  cases w.desk.running with
  | false => exact ⟨rfl, rfl⟩
  | true =>
    obtain ⟨o, ho⟩ : ∃ o, o = Desk.advance { w.desk with pacer := w.desk.pacer.beginTick } :=
      ⟨_, rfl⟩
    have hwork : o.desk.work = w.desk.work.advanced := by
      rw [ho, Desk.work_advance]
      rfl
    obtain ⟨hlisteners, htell, -⟩ := paced_tell (w := { w with desk := o.desk }) hls o.change
    rw [← ho]
    simp only [Bool.not_true, Bool.false_eq_true, if_false, if_true]
    split
    · next v more hv _ =>
      rw [hv] at hlisteners htell
      exact ⟨hlisteners, htell.trans hwork⟩
    · next v fault _ hv _ =>
      rw [hv] at hlisteners htell
      exact ⟨hlisteners, htell.trans hwork⟩

theorem calm_tell (hcalm : Calm w.listeners) (change : Option Change) :
    (w.tell change).1.listeners = w.listeners ∧ (w.tell change).1.desk.work = w.desk.work ∧
      (w.desk.running = false → (w.tell change).1.desk.running = false) := by
  have hasked (op : Operation) (hop : op.Calming) :
      op.Pacing ∧ (op = .run → w.desk.running = false → w.desk.machine.halted = true) := by
    refine ⟨hop.pacing, ?_⟩
    rintro rfl
    exact hop.elim
  have htell := (steady_pacing _ _).tell (hcalm.mono hasked) ⟨rfl, id⟩ change
  exact ⟨htell.listeners, htell.desk⟩

theorem calm_perform (hcalm : Calm w.listeners) (op : Operation) :
    (w.perform op).1.listeners = w.listeners ∧
      (w.perform op).1.desk.work = (op.apply w.desk).desk.work ∧
      ((op.apply w.desk).desk.running = false → (w.perform op).1.desk.running = false) := by
  rw [perform_fst]
  exact calm_tell (w := { w with desk := (op.apply w.desk).desk }) hcalm _

theorem calm_undo (hcalm : Calm w.listeners) (hidle : w.desk.running = false) {m : Machine}
    (hundo : w.desk.machine.undo? = some m) :
    ∃ v, w.perform .undo = (v, (w.announced .undo).2.elim (.ok (.flag true)) .error) ∧
      v.listeners = w.listeners ∧ v.desk.running = false ∧
      v.desk.work = { w.desk.work with machine := m } := by
  have happly : Operation.undo.apply w.desk = w.desk.undo.map .flag := rfl
  rw [Desk.undo_eq hidle hundo] at happly
  obtain ⟨hlisteners, hwork, hstopped⟩ := calm_perform hcalm .undo
  have hanswer := perform_snd .undo w
  rw [happly] at hwork hstopped hanswer
  exact ⟨_, Prod.ext rfl hanswer, hlisteners, hstopped rfl, hwork⟩

theorem calm_tick (hcalm : Calm w.listeners) :
    w.tick.listeners = w.listeners ∧
      w.tick.desk.work = if w.desk.running then w.desk.work.advanced else w.desk.work :=
  paced_tick (hcalm.mono fun _ hop => hop.pacing)

end Workbench

end TapeLab
