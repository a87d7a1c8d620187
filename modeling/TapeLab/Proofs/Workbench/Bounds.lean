import TapeLab.Proofs.Desk.Bounds
import TapeLab.Proofs.Machine.Simulation
import TapeLab.Proofs.Workbench.Reachable

/-!
A workbench never leaves the bounds of its work: there always is a challenge with its number, and
the head always stands on the tape. So no step fails, by hand or in a tick, and none writes into a
cell that is counted from the end.
-/

namespace TapeLab

namespace Desk

variable {d : Desk}

theorem advance_answer (hon : d.machine.OnTape) (hindex : 0 ≤ d.index)
    (hlt : d.index < d.catalog.challenges.length) : ∃ more, d.advance.answer = .ok more := by
  obtain ⟨more, hmore, -⟩ := Machine.step_answer hon
  obtain ⟨c, hc⟩ := d.catalog.get_eq_ok hindex hlt
  have hstep : d.machine.step = (d.machine.step.1, .ok more) := by rw [← hmore]
  obtain ⟨j, hj⟩ := d.advance_eq hstep hc
  exact ⟨more, by rw [hj]; rfl⟩

end Desk

namespace Workbench

variable {c : Catalog} {may : Operation → Prop}

theorem invariant_bounded (c : Catalog) : Invariant c Work.Bounded where
  new settings first rest hc := by
    refine ⟨⟨Int.le_refl 0, ?_⟩, Machine.bounded_start _ _ _ _ _ _⟩
    rw [hc]
    exact Int.natCast_pos.2 (Nat.succ_pos _)
  step {u v} hu hP huv := by
    refine hP.becomes (fun s hs => ?_) huv
    rcases hs with ⟨json, hjson⟩ | ⟨w, hw, hPw, rfl⟩
    · exact hu ▸ Work.fits_of_ofJson hjson
    · rw [hu, ← hw]
      exact hPw.fits_session

theorem Reachable.bounded {w : Workbench} (h : Reachable c may w) : w.desk.work.Bounded :=
  (h.invariant (invariant_bounded c)).2

/-- In every state that can be reached the challenge is there, and the head is on the tape, now and
in every snapshot; so a step by hand and the step of a tick have an answer, unless a listener that
is told of them fails, and they write into the cell of that number. -/
theorem reachable_in_bounds {w : Workbench} (h : Reachable c may w) :
    (0 ≤ w.desk.index ∧ w.desk.index < c.challenges.length) ∧
    0 < w.desk.machine.tape.size ∧
    (0 ≤ w.desk.machine.head ∧ w.desk.machine.head < w.desk.machine.tape.size) ∧
    (∀ s ∈ w.desk.machine.history.entries,
      0 < s.cells.length ∧ 0 ≤ s.head ∧ s.head < s.cells.length) ∧
    (∃ more, (Operation.step.apply w.desk).answer = .ok (.flag more) ∧
      (w.perform .step).2 = (w.announced .step).2.elim (.ok (.flag more)) .error) ∧
    (∃ more, (Desk.advance { w.desk with pacer := w.desk.pacer.beginTick }).answer = .ok more) ∧
    ∀ s, w.desk.machine.tape.write w.desk.machine.head s =
      .ok (w.desk.machine.tape.set w.desk.machine.head.toNat s) := by
  obtain ⟨hcatalog, hindex, hon, hhistory⟩ := h.invariant (invariant_bounded c)
  refine ⟨hcatalog ▸ hindex, w.desk.machine.tape.size_pos, hon, fun s hs => ?_, ?_, ?_, fun s => ?_⟩
  · obtain ⟨hcells, hhead⟩ := hhistory s hs
    exact ⟨List.length_pos_iff.2 hcells, hhead⟩
  · obtain ⟨more, hmore⟩ : ∃ more, (Operation.step.apply w.desk).answer = .ok (.flag more) := by
      obtain ⟨more, hmore⟩ := Desk.advance_answer hon hindex.1 hindex.2
      show ∃ more, w.desk.step.answer.map Answer.flag = .ok (.flag more)
      unfold Desk.step
      split
      · exact ⟨false, rfl⟩
      · exact ⟨more, by rw [hmore]; rfl⟩
    exact ⟨more, hmore, by rw [perform_snd, hmore]⟩
  · exact Desk.advance_answer (d := { w.desk with pacer := w.desk.pacer.beginTick }) hon hindex.1
      hindex.2
  · exact Tape.write_eq_set _ s hon.1 hon.2

/-- The head is moved into a tape that is too short for it, and again when that loses a cell. -/
theorem shrunk_in_bounds :
    ∃ w, Reachable .standard (fun _ => False) w ∧ w.desk.machine.tape.cells = ["1", "0"] ∧
      w.desk.machine.head = 1 ∧ (0 ≤ w.desk.index ∧ w.desk.index < 5) ∧
      (0 ≤ w.desk.machine.head ∧ w.desk.machine.head < w.desk.machine.tape.size) ∧
      ∃ more, (w.perform .step).2 = .ok (.flag more) := by
  have hload : Permitted .standard (fun _ => False) (.loadTape ["1", "0", "1"] 99) :=
    .plain (by simp)
  have hremove : Permitted .standard (fun _ => False) .removeCell := .plain (by simp)
  have hreach := ((reachable_firstBench fun _ => False).perform hload).perform hremove
  obtain ⟨hindex, -, hhead, -, ⟨more, -, hstep⟩, -⟩ := reachable_in_bounds hreach
  have hfine : ((firstBench.perform (.loadTape ["1", "0", "1"] 99)).1.perform
      .removeCell).1.Unfailing := (unfailing_of_nil rfl).perform _ |>.perform _
  rw [hfine.announced] at hstep
  exact ⟨_, hreach, by decide +kernel, by decide +kernel, hindex, hhead, more, hstep⟩

end Workbench

end TapeLab
