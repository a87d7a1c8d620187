import TapeLab.Proofs.Desk.Advance
import TapeLab.Proofs.Desk.Gears

/-!
How a machine stands: in which state, after how many steps and with which history, and whether it
has halted and has won. Steps change that, and so do the operations that load a machine or go back
to a snapshot; no others do. A machine that is loaded or goes back has never won.
-/

namespace TapeLab

structure Standing where
  catalog : Catalog
  index : Int
  state : String
  steps : Int
  history : History Snapshot
  halted : Bool
  won : Bool

def Work.standing (u : Work) : Standing where
  catalog := u.catalog
  index := u.index
  state := u.machine.state
  steps := u.machine.steps
  history := u.machine.history
  halted := u.machine.halted
  won := u.machine.won

namespace Work

variable {u : Work}

theorem standing_advanced_of_no_rule (h : u.machine.rule? = none) :
    u.advanced.standing = { u.standing with halted := true } := by
  obtain ⟨message, lastStep, hstep⟩ := Machine.step_of_no_rule h
  have hmachine : u.advanced.machine = u.machine.step.1 := by
    simp only [advanced, hstep]
    exact judged_of_no_entry fun r hr => by cases hr
  rw [standing, hmachine, hstep]
  rfl

theorem standing_advanced_of_rule {r : Rule} (hon : u.machine.OnTape)
    (h : u.machine.rule? = some r) :
    u.advanced.standing =
      { u.standing with
        state := r.next
        steps := u.machine.steps + 1
        history := u.machine.history.push u.machine.snapshot
        halted := r.next == haltState
        won := u.advanced.machine.won } := by
  have hhalted : u.machine.halted = false := (Machine.rule?_eq_some_iff.1 h).1
  have hmachine : u.advanced.machine = judged u.catalog u.index (u.machine.applied r) := by
    simp only [advanced, Machine.step_of_rule hon h]
  obtain ⟨won, message, hjudged⟩ := judged_cases u.catalog u.index (u.machine.applied r)
  rw [standing, hmachine, hjudged]
  simp only [standing, Machine.applied_state, Machine.applied_steps, Machine.applied_history,
    Machine.applied_halted, hhalted, Bool.false_or, advanced_catalog, advanced_index]

end Work

/-- Operations that load the machine or, if there is a snapshot, go back to it. -/
def Operation.Renews (d : Desk) : Operation → Prop
  | .reset | .loadTape _ _ => True
  | .loadChallenge index => 0 ≤ index ∧ index < d.catalog.challenges.length
  | .restore s => s.challenge.isSome = true
  | .undo => d.undo.answer = .ok true
  | _ => False

namespace Desk

variable {d : Desk}

theorem work_undo_of_refused (h : d.undo.answer ≠ .ok true) : d.undo.desk.work = d.work := by
  rcases d.undo_cases with hrefused | ⟨m, -, hundo⟩
  · rw [hrefused]
    cases d.running <;> rfl
  · rw [hundo] at h
    exact absurd rfl h

theorem standing_overlay (u : Work) (s : Session) :
    Work.standing { u with machine := overlay u.machine s } = u.standing := by
  unfold overlay
  cases s.rules <;> cases s.cells <;> rfl

end Desk

theorem Operation.standing_apply {d : Desk} {op : Operation} (hrenews : ¬ op.Renews d)
    (hstep : op ≠ .step) : (op.apply d).desk.work.standing = d.work.standing := by
  have hsame {e : Desk} (h : e.work = d.work) : e.work.standing = d.work.standing :=
    congrArg Work.standing h
  cases op with
  | step => exact absurd rfl hstep
  | run => exact hsame d.work_run
  | pause => exact hsame d.work_pause
  | undo => exact hsame (Desk.work_undo_of_refused hrenews)
  | reset => exact absurd trivial hrenews
  | loadChallenge index =>
    show (d.loadChallenge index).desk.work.standing = _
    have hindex : ¬ (0 ≤ index ∧ index < d.catalog.challenges.length) := hrenews
    rw [Desk.loadChallenge, if_neg hindex]
    rfl
  | loadTape cells head => exact absurd trivial hrenews
  | setSpeed milliseconds => exact hsame (d.work_setSpeed milliseconds)
  | restore s =>
    have hnone : s.challenge = none := by simpa [Renews] using hrenews
    show (d.restore s).desk.work.standing = _
    rw [d.work_restore, Work.restored, hnone]
    exact Desk.standing_overlay d.work s
  | updateRule index field value =>
    show (d.updateRule index field value).desk.work.standing = _
    unfold Desk.updateRule
    split <;> rfl
  | deleteRule index =>
    show (d.deleteRule index).desk.work.standing = _
    unfold Desk.deleteRule
    split <;> rfl
  | editCell index value =>
    show (d.editCell index value).desk.work.standing = _
    unfold Desk.editCell
    split <;> rfl
  | removeCell =>
    show d.removeCell.desk.work.standing = _
    unfold Desk.removeCell
    split <;> rfl
  | useRules _ => rfl
  | addRule => rfl
  | addCell => rfl

structure Machine.Renewed (old m : Machine) : Prop where
  state : m.state = initialState ∨ ∃ s ∈ old.history.entries, m.state = s.state
  won : m.won = false
  history : ∀ s ∈ m.history.entries, s ∈ old.history.entries

namespace Machine

variable {old m : Machine}

theorem renewed_load (old : Machine) (cells : List Symbol) (head : Int) :
    Renewed old (old.load cells head) :=
  ⟨.inl rfl, rfl, fun _ hs => absurd hs List.not_mem_nil⟩

theorem renewed_undo? (h : old.undo? = some m) : Renewed old m := by
  obtain ⟨⟨s, rest⟩, hpop, rfl⟩ := Option.map_eq_some_iff.1 h
  obtain ⟨hentries, -⟩ := History.pop?_eq_some_iff.1 hpop
  exact ⟨.inr ⟨s, by simp [hentries], rfl⟩, rfl, fun t ht => by simp [hentries, ht]⟩

theorem Renewed.setUp (old : Machine) (c : Challenge) : Renewed old (Desk.setUp old c) :=
  ⟨.inl rfl, rfl, fun _ hs => absurd hs List.not_mem_nil⟩

theorem Renewed.overlay (h : Renewed old m) (s : Session) : Renewed old (Desk.overlay m s) := by
  obtain ⟨hstate, hwon, hhistory⟩ := h
  unfold Desk.overlay
  cases s.rules <;> cases s.cells <;> exact ⟨hstate, hwon, hhistory⟩

end Machine

theorem Desk.renewed_undo {d : Desk} (h : d.undo.answer = .ok true) :
    Machine.Renewed d.machine d.undo.desk.machine := by
  rcases d.undo_cases with hrefused | ⟨m, hm, hundo⟩
  · rw [hrefused] at h
    cases h
  · rw [hundo]
    exact Machine.renewed_undo? hm

theorem Operation.Renews.renewed {d : Desk} {op : Operation} (h : op.Renews d)
    (hbounded : d.work.Bounded) (hop : ∀ s, op = .restore s → Work.Fits d.catalog s) :
    Machine.Renewed d.machine (op.apply d).desk.machine := by
  cases op with
  | reset =>
    obtain ⟨c, hc⟩ := d.catalog.get_eq_ok hbounded.index.1 hbounded.index.2
    have hmachine : d.reset.desk.machine = d.machine.load c.cells c.head :=
      congrArg Work.machine (d.work_reset hc)
    show Machine.Renewed d.machine d.reset.desk.machine
    rw [hmachine]
    exact Machine.renewed_load d.machine c.cells c.head
  | loadTape cells head => exact Machine.renewed_load d.machine cells head
  | loadChallenge index =>
    obtain ⟨c, hc⟩ := d.catalog.get_eq_ok h.1 h.2
    show Machine.Renewed d.machine (d.loadChallenge index).desk.machine
    rw [d.loadChallenge_eq h.1 h.2 hc]
    exact .setUp d.machine c
  | undo => exact Desk.renewed_undo h
  | restore s =>
    obtain ⟨index, hindex⟩ := Option.isSome_iff_exists.1 h
    obtain ⟨hpos, hlt⟩ := (hop s rfl).challenge index hindex
    obtain ⟨c, hc⟩ := d.catalog.get_eq_ok hpos hlt
    have hmachine : (d.restore s).desk.machine = Desk.overlay (Desk.setUp d.machine c) s := by
      have hget : d.work.catalog.get index = .ok c := hc
      have hwork := d.work_restore s
      rw [Work.restored, hindex] at hwork
      simp only [hget] at hwork
      exact congrArg Work.machine hwork
    show Machine.Renewed d.machine (d.restore s).desk.machine
    rw [hmachine]
    exact (Machine.Renewed.setUp d.machine c).overlay s
  | _ => exact h.elim

end TapeLab
