import TapeLab.Proofs.Desk.Chronicle
import TapeLab.Proofs.Workbench.Arises
import TapeLab.Proofs.Workbench.Calm

/-!
The history at a workbench. Whatever happens there, whatever listeners ask for and whichever
sessions are restored, the history is the record of the last steps up to the present; so the newest
snapshots have the numbers before the present one, and going back leads to a machine that can go on.
-/

namespace TapeLab

namespace Workbench

variable {c : Catalog} {asked : Host → Reaction → Prop} {w : Workbench}

def past (w : Workbench) : List Snapshot := w.desk.machine.history.toList

theorem Arises.chronicled (h : Arises c Session.Placeable asked w) :
    w.desk.machine.Bounded ∧ w.desk.machine.Chronicled :=
  (h.keeps (P := fun u => u.machine.Bounded ∧ u.machine.Chronicled)
    (fun _ _ => ⟨Machine.bounded_start _ _ _ _ _ _, Machine.chronicled_start _ _ _ _ _⟩)
    fun _ _ hu huv => ⟨Work.machine_becomes hu.1 (fun _ hs => hs) huv,
      Work.chronicled_becomes hu.2 hu.1.onTape huv⟩).2

theorem undo?_of_answer (h : (Operation.undo.apply w.desk).answer = .ok (.flag true)) :
    w.desk.machine.undo? = some (Operation.undo.apply w.desk).desk.machine := by
  have happly : Operation.undo.apply w.desk = w.desk.undo.map .flag := rfl
  have hanswer : (w.desk.undo.map Answer.flag).answer = .ok (.flag true) := h
  rw [happly]
  rcases w.desk.undo_cases with hrefused | ⟨m, hm, hundo⟩
  · rw [hrefused] at hanswer
    cases hanswer
  · rw [hundo]
    exact hm

/-- The history ends right before the present and has no gap, and no snapshot in it is of the
halting state. The newest snapshots are those with the numbers right before the present one. Where
going back succeeds, it leads to the step before, and listeners that do nothing but start, stop or
pace a run leave the machine there. -/
theorem history_unbroken (h : Arises c Session.Placeable asked w) :
    w.past.length ≤ w.desk.machine.history.bounds.cap ∧
    w.past.length ≤ w.desk.machine.steps ∧
    (∀ (i : Nat) (hi : i < w.past.length),
      w.past[i].steps = w.desk.machine.steps - w.past.length + i ∧
      w.past[i].state ≠ haltState) ∧
    (∀ count : Nat,
      w.desk.machine.history.recent count = w.past.reverse.take count ∧
      (w.desk.machine.history.recent count).map Snapshot.steps =
        (List.range (min count w.past.length)).map fun i : Nat => w.desk.machine.steps - 1 - i) ∧
    ((Operation.undo.apply w.desk).answer = .ok (.flag true) →
      (Operation.undo.apply w.desk).desk.machine.halted = false ∧
      (Operation.undo.apply w.desk).desk.machine.state ≠ haltState ∧
      (Operation.undo.apply w.desk).desk.machine.steps = w.desk.machine.steps - 1 ∧
      (Modest Operation.Pacing w.listeners →
        (w.perform .undo).1.desk.machine = (Operation.undo.apply w.desk).desk.machine)) := by
  have hchronicled := h.chronicled.2
  obtain ⟨hcap, hlength⟩ := hchronicled.length_le
  refine ⟨hcap, hlength, fun i hi => ?_, fun count => ?_, fun hanswer => ?_⟩
  · exact ⟨hchronicled.steps_getElem i hi, hchronicled.state_getElem i hi⟩
  · exact ⟨w.desk.machine.history.recent_natCast count, hchronicled.steps_recent count⟩
  · obtain ⟨hhalted, hstate, hsteps⟩ := hchronicled.undone (undo?_of_answer hanswer)
    exact ⟨hhalted, hstate, hsteps, fun hls => congrArg Work.machine (paced_perform hls _).2.1⟩

def forgetfulDesk : Desk :=
  { firstDesk with
    machine := { firstDesk.machine with history := .empty ⟨2, 1, by decide, by decide⟩ } }

theorem new_forgetfulDesk :
    Desk.new { Settings.default with bounds := ⟨2, 1, by decide, by decide⟩ } .standard none .empty
      true = .ok forgetfulDesk := rfl

/-- Three steps with a tape restored in between, where at most two snapshots are kept. -/
theorem history_unbroken_of_two :
    ∃ w, Arises .standard Session.Placeable (fun _ _ => True) w ∧ w.desk.machine.steps = 3 ∧
      (w.desk.machine.history.recent 5).map Snapshot.steps = [2, 1] ∧
      (w.perform .undo).1.desk.machine.steps = 2 ∧
      (w.perform .undo).1.desk.machine.state ≠ haltState := by
  have hnew :=
    @Arises.new .standard Session.Placeable (fun _ _ => True) _ none _ _ _ .plain new_forgetfulDesk
  have hstep {u : Workbench} (hu : Arises .standard Session.Placeable (fun _ _ => True) u) :
      Arises .standard Session.Placeable (fun _ _ => True) (u.perform .step).1 :=
    hu.perform fun s hs => by cases hs
  have hrestored := @Arises.perform _ _ _ _ (.restore ⟨none, none, some ["1", "1", "1"], none⟩)
    (hstep (hstep hnew)) (by rintro s ⟨⟩ head ⟨⟩)
  have hw := hstep hrestored
  obtain ⟨-, -, -, hrecent, hundo⟩ := history_unbroken hw
  obtain ⟨-, hstate, hsteps, hpaced⟩ := hundo (by decide +kernel)
  have hmachine := hpaced (show Modest Operation.Pacing [] from List.forall_mem_nil _)
  refine ⟨_, hw, by decide +kernel, ?_, ?_, ?_⟩
  · exact (hrecent 5).2.trans (by decide +kernel)
  · rw [hmachine, hsteps]
    decide +kernel
  · rwa [hmachine]

end Workbench

end TapeLab
