import TapeLab.Proofs.Workbench.Geared

/-!
Refused operations. Whoever is refused finds everything as it was, and no listener has been told.
There is one exception: going back is refused where there is no snapshot, but by then the pacer has
been reset, so that one that has halted is idle again.
-/

namespace TapeLab

namespace Operation

/-- Calls that are refused: they answer `false`, or there is no such challenge or field. A step by
hand is refused while a run is going and after a halt; one that is made may answer `false`, too. -/
def Refused (d : Desk) (op : Operation) : Prop :=
  match op with
  | .step => (op.apply d).answer = .ok (.flag false) ∧ (d.running || d.machine.halted) = true
  | .run | .undo | .deleteRule _ | .editCell _ _ | .removeCell =>
    (op.apply d).answer = .ok (.flag false)
  | .updateRule _ _ _ =>
    (op.apply d).answer = .ok (.flag false) ∨
      ∃ name, (op.apply d).answer = .error (.table (.unknownField name))
  | .loadChallenge index => (op.apply d).answer = .error (.noSuchChallenge index)
  | _ => False

end Operation

namespace Desk

variable {d : Desk}

theorem apply_of_refused {op : Operation} (h : op.Refused d) (hundo : op ≠ .undo) :
    (op.apply d).desk = d ∧ (op.apply d).change = none := by
  cases op with
  | step =>
    have hstep : d.step = .refused d false := if_pos h.2
    rw [Operation.apply, hstep]
    exact ⟨rfl, rfl⟩
  | run =>
    have hanswer : d.run.answer.map Answer.flag = .ok (.flag false) := h
    show d.run.desk = d ∧ d.run.change = none
    rw [run_eq] at hanswer ⊢
    split at hanswer
    · split at hanswer <;> cases hanswer
    · next hfree =>
      rw [if_neg hfree]
      exact ⟨rfl, rfl⟩
  | loadChallenge index =>
    have hanswer : (d.loadChallenge index).answer.map (fun _ => Answer.done) =
      .error (.noSuchChallenge index) := h
    show (d.loadChallenge index).desk = d ∧ (d.loadChallenge index).change = none
    by_cases hindex : 0 ≤ index ∧ index < d.catalog.challenges.length
    · obtain ⟨c, hc⟩ := d.catalog.get_eq_ok hindex.1 hindex.2
      rw [d.loadChallenge_eq hindex.1 hindex.2 hc] at hanswer
      cases hanswer
    · rw [Desk.loadChallenge, if_neg hindex]
      exact ⟨rfl, rfl⟩
  | updateRule index field value =>
    have hanswer : (d.updateRule index field value).answer ≠ .ok true := by
      intro htrue
      have hflag : ((Operation.updateRule index field value).apply d).answer = .ok (.flag true) :=
        congrArg (Except.map Answer.flag) htrue
      rcases h with h | ⟨name, h⟩ <;> cases hflag.symm.trans h
    show (d.updateRule index field value).desk = d ∧ (d.updateRule index field value).change = none
    unfold Desk.updateRule at hanswer ⊢
    split
    · exact ⟨rfl, rfl⟩
    · exact ⟨rfl, rfl⟩
    · next t ht =>
      rw [ht] at hanswer
      exact absurd rfl hanswer
  | deleteRule index =>
    have hanswer : (d.deleteRule index).answer.map Answer.flag = .ok (.flag false) := h
    show (d.deleteRule index).desk = d ∧ (d.deleteRule index).change = none
    unfold Desk.deleteRule at hanswer ⊢
    split at hanswer
    · exact ⟨rfl, rfl⟩
    · cases hanswer
  | editCell index value =>
    have hanswer : (d.editCell index value).answer.map Answer.flag = .ok (.flag false) := h
    show (d.editCell index value).desk = d ∧ (d.editCell index value).change = none
    unfold Desk.editCell at hanswer ⊢
    split at hanswer
    · exact ⟨rfl, rfl⟩
    · cases hanswer
  | removeCell =>
    have hanswer : d.removeCell.answer.map Answer.flag = .ok (.flag false) := h
    show d.removeCell.desk = d ∧ d.removeCell.change = none
    unfold Desk.removeCell at hanswer ⊢
    split at hanswer
    · exact ⟨rfl, rfl⟩
    · cases hanswer
  | undo => exact absurd rfl hundo
  | _ => exact h.elim

theorem stopRun_eq (hcurrent : d.pacer.current = none) :
    d.stopRun = { d with
      pacer := { d.pacer with phase := .idle, handle := none }
      agenda := d.agenda.cancelHeld d.pacer.handle } := by
  unfold stopRun
  rw [Pacer.reset_eq]
  simp only [withPacer, Pacer.stop, hcurrent]

end Desk

namespace Workbench

variable {c : Catalog} {asked : Host → Reaction → Prop} {w : Workbench} {op : Operation}

def idled (w : Workbench) : Workbench :=
  { w with desk := { w.desk with
      pacer := { w.desk.pacer with phase := .idle, handle := none }
      agenda := w.desk.agenda.cancelHeld w.desk.pacer.handle } }

theorem perform_undo_of_refused (hcoherent : w.desk.pacer.Coherent)
    (hop : Operation.undo.Refused w.desk) :
    (Operation.undo.apply w.desk).change = none ∧
      (w.perform .undo).1 = if w.desk.running then w else w.idled := by
  have hanswer : w.desk.undo.answer.map Answer.flag = .ok (.flag false) := hop
  have happly : Operation.undo.apply w.desk = w.desk.undo.map Answer.flag := rfl
  rcases w.desk.undo_cases with hrefused | ⟨m, -, hundo⟩
  · rw [hrefused] at happly
    have hsilent : (Operation.undo.apply w.desk).change = none := by rw [happly]; rfl
    refine ⟨hsilent, ?_⟩
    rw [perform_of_silent hsilent, happly]
    cases hrunning : w.desk.running with
    | true => rfl
    | false =>
      have hstop := Desk.stopRun_eq (hcoherent.current_eq_none hrunning)
      show { w with desk := w.desk.stopRun } = w.idled
      rw [hstop]
      rfl
  · rw [hundo] at hanswer
    cases hanswer

theorem idled_of_geared (h : w.desk.Geared) (hidle : w.desk.running = false)
    (hphase : w.desk.pacer.phase ≠ .halted) : w.idled = w := by
  have hhandle := h.awaited hidle
  have hphase : w.desk.pacer.phase = .idle := by
    cases hcase : w.desk.pacer.phase with
    | idle => rfl
    | running => simp [Desk.running, Pacer.running, hcase] at hidle
    | halted => exact absurd hcase hphase
  rw [idled, hhandle, Agenda.cancelHeld, ← hphase, ← hhandle]

/-- What is refused is not announced, and it changes nothing at all, but for an undo where there is
no snapshot, which leaves the pacer idle; if listeners let no run begin, that makes a difference
just where the pacer has halted. -/
theorem refused_keeps (h : Arises c (Work.Fits c) asked w) (hop : op.Refused w.desk) :
    (op.apply w.desk).change = none ∧
    (op ≠ .undo ∨ w.desk.running = true → (w.perform op).1 = w) ∧
    (op = .undo → w.desk.running = false → (w.perform op).1 = w.idled) ∧
    ((∀ host op', asked host (.perform op') → op' ≠ .run) → w.desk.pacer.phase ≠ .halted →
      (w.perform op).1 = w) := by
  by_cases hundo : op = .undo
  · subst hundo
    obtain ⟨hsilent, hperform⟩ :=
      perform_undo_of_refused h.orderly_of_any.inStep.sound.coherent hop
    refine ⟨hsilent, fun hrunning => ?_, fun _ hidle => ?_, fun hasked hphase => ?_⟩
    · rw [hperform, if_pos (hrunning.resolve_left (by simp))]
    · rw [hperform, hidle]
      rfl
    · rw [hperform]
      split
      · rfl
      · next hidle =>
        exact idled_of_geared (h.geared hasked).2 (by simpa using hidle) hphase
  · obtain ⟨hdesk, hchange⟩ := Desk.apply_of_refused hop hundo
    have hsame : (w.perform op).1 = w := by rw [perform_of_silent hchange, hdesk]
    exact ⟨hchange, fun _ => hsame, fun hop' => absurd hop' hundo, fun _ _ => hsame⟩

/-- A step by hand during a run. -/
theorem refused_step_keeps :
    ∃ w, Arises .standard (Work.Fits .standard) Reaction.Harmless w ∧
      Operation.step.Refused w.desk ∧ w.desk.ticks = [0] ∧ (w.perform .step).1 = w := by
  have hplain : Restores (Work.Fits .standard) .run := fun s hs => absurd hs (by simp)
  have hrun := (arises_firstBench (Work.Fits .standard) Reaction.Harmless).perform hplain
  have hrefused : Operation.step.Refused
      (firstBench.perform .run).1.desk := ⟨rfl, rfl⟩
  exact ⟨_, hrun, hrefused, by decide +kernel, (refused_keeps hrun hrefused).2.1 (.inl (by simp))⟩

/-- A run without rules halts at once. The undo that is refused then leaves an idle pacer behind. -/
theorem refused_undo_forgets_halt :
    ∃ w, Arises .standard (Work.Fits .standard) Reaction.Harmless w ∧
      Operation.undo.Refused w.desk ∧ w.desk.machine.halted = true ∧
      w.desk.pacer.phase = .halted ∧ (w.perform .undo).1.desk.pacer.phase = .idle ∧
      (w.perform .undo).1 ≠ w := by
  have hplain (op : Operation) (hop : ∀ s, op ≠ .restore s) :
      Restores (Work.Fits .standard) op := fun s hs => absurd hs (hop s)
  have hfirst := arises_firstBench (Work.Fits .standard) Reaction.Harmless
  have hrules := hfirst.perform (hplain (.useRules ⟨[]⟩) (by simp))
  have hrun := hrules.perform (hplain .run (by simp))
  obtain ⟨w, hw⟩ : ∃ w, w = (((firstBench.perform
    (.useRules ⟨[]⟩)).1).perform .run).1 := ⟨_, rfl⟩
  rw [← hw] at hrun
  have hfire : Stirs w ((w.withAgenda { w.desk.agenda with queue := #[] }).fire .tick) :=
    @Stirs.fire w 0 .tick _ (by rw [hw]; decide +kernel) rfl
  have hphase : ((w.withAgenda { w.desk.agenda with queue := #[] }).fire
      .tick).desk.pacer.phase = .halted := by rw [hw]; decide +kernel
  have hidle : (((w.withAgenda { w.desk.agenda with queue := #[] }).fire
      .tick).perform .undo).1.desk.pacer.phase = .idle := by rw [hw]; decide +kernel
  have hrefused : (Operation.undo.apply ((w.withAgenda { w.desk.agenda with queue := #[] }).fire
      .tick).desk).answer = .ok (.flag false) := by
    rw [hw]
    rfl
  refine ⟨_, hrun.stir hfire, hrefused, ?_, hphase, hidle, fun hsame => ?_⟩
  · rw [hw]
    decide +kernel
  · rw [hsame, hphase] at hidle
    cases hidle

end Workbench

end TapeLab
