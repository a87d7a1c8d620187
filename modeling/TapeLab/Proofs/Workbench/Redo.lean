import TapeLab.Proofs.Desk.Redo
import TapeLab.Proofs.Workbench.Chronicle

/-!
Steps that are made again at a workbench: the same machine comes of them, in every respect, and they
tell the same.
-/

namespace TapeLab

namespace Workbench

variable {c : Catalog} {kept : Session → Prop} {asked : Host → Reaction → Prop} {w : Workbench}
  {r : Rule}

theorem Arises.replayable (h : Arises c kept asked w) : w.desk.machine.Replayable :=
  (h.keeps (P := fun u => u.machine.Replayable)
    (fun _ _ => Machine.replayable_start _ _ _ _ _ _)
    fun _ _ hu huv => Work.replayable_becomes hu huv).2

theorem perform_step_of_idle (hcalm : Calm w.listeners) (hidle : w.desk.running = false)
    (hhalted : w.desk.machine.halted = false) :
    ∃ v, w.perform .step =
        (v, (w.announced .step).2.elim (w.desk.work.answer.map .flag) .error) ∧
      Calm v.listeners ∧
      v.desk.running = false ∧ v.desk.work = w.desk.work.advanced ∧
      (Operation.step.apply w.desk).change = w.desk.work.change ∧
      (Operation.step.apply w.desk).desk.journal =
        (w.desk.work.report.map .logged).reverse ++ w.desk.journal := by
  have happly : Operation.step.apply w.desk = w.desk.advance.map .flag := by
    rw [← Desk.step_eq_advance hidle hhalted]
    rfl
  rw [Desk.advance_eq_report] at happly
  obtain ⟨hlisteners, hwork, hstopped⟩ := calm_perform hcalm .step
  have hanswer := perform_snd .step w
  rw [happly] at hwork hstopped hanswer ⊢
  exact ⟨_, Prod.ext rfl hanswer, hlisteners ▸ hcalm, hstopped hidle, hwork, rfl, rfl⟩

/-- Wherever a step by hand applies a rule, going back over it and making it again leads to the
machine as it was after the step, with its whole history and everything that it shows; and the step
answers, announces and logs the same, with the same verdict if it has entered the halting state. If
a listener fails, it is its fault that is answered. -/
theorem redo_is_exact (h : Arises c kept asked w) (hcalm : Calm w.listeners)
    (hidle : w.desk.running = false) (hrule : w.desk.machine.step.1.active = some r) :
    ∃ v₁ v₂ v₃ answer told,
      w.perform .step = (v₁, (w.announced .step).2.elim answer .error) ∧
      v₁.perform .undo = (v₂, (v₁.announced .undo).2.elim (.ok (.flag true)) .error) ∧
      v₂.perform .step = (v₃, (v₂.announced .step).2.elim answer .error) ∧
      v₁.desk.machine.active = some r ∧
      v₂.desk.machine.snapshot = w.desk.machine.snapshot ∧ v₃.desk.machine = v₁.desk.machine ∧
      (Operation.step.apply v₂.desk).change = (Operation.step.apply w.desk).change ∧
      (Operation.step.apply w.desk).desk.journal = told ++ w.desk.journal ∧
      (Operation.step.apply v₂.desk).desk.journal = told ++ v₂.desk.journal ∧
      (r.next = haltState → ∀ challenge verdict, w.desk.challenge = .ok challenge →
        verify v₁.desk.machine.tape.cells challenge = some verdict →
        .logged (.judged challenge.name verdict.won) ∈ told ∧
        v₃.desk.machine.won = verdict.won ∧ v₃.desk.machine.message = verdict.message) := by
  have hhalted := (Machine.step_of_active hrule).1
  obtain ⟨won, message, hjudged⟩ :=
    Work.judged_cases w.desk.catalog w.desk.index w.desk.machine.step.1
  obtain ⟨m, hundo, hsnapshot, hstep, hanswer, hchange, hreport⟩ :=
    Work.redone (u := w.desk.work) h.replayable hrule
  obtain ⟨v₁, hv₁, hcalm₁, hidle₁, hwork₁, hchange₁, hjournal₁⟩ :=
    perform_step_of_idle hcalm hidle hhalted
  have hmachine₁ : v₁.desk.machine = w.desk.work.advanced.machine := congrArg Work.machine hwork₁
  obtain ⟨v₂, hv₂, hlisteners₂, hidle₂, hwork₂⟩ :=
    calm_undo hcalm₁ hidle₁ (m := m) (by rw [hmachine₁, hundo])
  have hcalm₂ : Calm v₂.listeners := hlisteners₂ ▸ hcalm₁
  have hmachine₂ : v₂.desk.machine = m := congrArg Work.machine hwork₂
  replace hwork₂ : v₂.desk.work = { w.desk.work with machine := m } := by rw [hwork₂, hwork₁]; rfl
  have hhalted₂ : v₂.desk.machine.halted = false := by
    rw [hmachine₂]
    exact (Machine.step_of_active (hstep ▸ hrule)).1
  obtain ⟨v₃, hv₃, -, -, hwork₃, hchange₃, hjournal₃⟩ := perform_step_of_idle hcalm₂ hidle₂ hhalted₂
  rw [hwork₂] at hwork₃ hchange₃ hjournal₃
  rw [hwork₂, hanswer] at hv₃
  have hmachine₃ : v₃.desk.machine = v₁.desk.machine := by
    have hadvanced := congrArg Work.machine hwork₃
    rw [Work.advanced, hstep] at hadvanced
    rw [hmachine₁]
    exact hadvanced
  refine ⟨v₁, v₂, v₃, _, (w.desk.work.report.map Entry.logged).reverse, hv₁, hv₂, hv₃, ?_, ?_,
    hmachine₃, ?_, hjournal₁, ?_, fun hnext challenge verdict hget hverify => ?_⟩
  · rw [hmachine₁]
    exact (congrArg Machine.active hjudged).trans hrule
  · rw [hmachine₂, hsnapshot]
    rfl
  · rw [hchange₃, hchange₁, hchange]
  · rw [hjournal₃, hreport]
  · have hcells : v₁.desk.machine.tape.cells = w.desk.machine.step.1.tape.cells := by
      rw [hmachine₁]
      exact congrArg (fun n => n.tape.cells) hjudged
    obtain ⟨hlogged, hwon, hmessage⟩ :=
      Work.verdict_of_entry (u := w.desk.work) hrule hnext hget (hcells ▸ hverify)
    rw [hmachine₃, hmachine₁]
    exact ⟨List.mem_reverse.2 (List.mem_map_of_mem hlogged), hwon, hmessage⟩

/-- The step into the halting state, at a history that is full: its push has dropped the oldest
snapshot, and the one that is made again drops none. -/
theorem redo_into_verdict :
    ∃ w v₁ v₂ v₃ told, Arises .standard (fun _ => True) (fun _ _ => True) w ∧
      w.desk.machine.history.size = w.desk.machine.history.bounds.cap ∧
      w.perform .step = (v₁, .ok (.flag false)) ∧ v₁.perform .undo = (v₂, .ok (.flag true)) ∧
      v₂.perform .step = (v₃, .ok (.flag false)) ∧ v₁.desk.machine.won = true ∧
      (v₁.desk.machine.history.size, v₂.desk.machine.history.size) = (2, 1) ∧
      v₃.desk.machine = v₁.desk.machine ∧
      (Operation.step.apply v₂.desk).desk.journal = told ++ v₂.desk.journal ∧
      .logged (.judged "Binary Inverter" true) ∈ told := by
  have hstep {u : Workbench} (hu : Arises .standard (fun _ => True) (fun _ _ => True) u) :
      Arises .standard (fun _ => True) (fun _ _ => True) (u.perform .step).1 :=
    hu.perform fun _ _ => trivial
  have hw := hstep <| hstep <| hstep <| hstep <| hstep <| hstep <| hstep <|
    @Arises.new .standard (fun _ => True) (fun _ _ => True) _ none _ _ _ .plain new_forgetfulDesk
  obtain ⟨v₁, v₂, v₃, answer, told, hv₁, hv₂, hv₃, -, -, hsame, -, -, htold, hverdict⟩ :=
    redo_is_exact (r := ⟨initialState, blank, blank, .stay, haltState⟩) hw (List.forall_mem_nil _)
      (by decide +kernel) (by decide +kernel)
  obtain rfl := congrArg Prod.fst hv₁
  obtain rfl := congrArg Prod.fst hv₂
  obtain rfl := congrArg Prod.fst hv₃
  obtain rfl : .ok (.flag false) = answer := congrArg Prod.snd hv₁
  have hlogged : .logged (.judged "Binary Inverter" true) ∈ told := (hverdict rfl _ _ rfl rfl).1
  exact ⟨_, _, _, _, told, hw, by decide +kernel, hv₁, hv₂, hv₃, by decide +kernel,
    by decide +kernel, hsame, htold, hlogged⟩

end Workbench

end TapeLab
