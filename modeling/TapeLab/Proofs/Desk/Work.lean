import TapeLab.Desk.Operation
import TapeLab.Proofs.Machine.Step

/-!
What the operations of a desk do to its work: to the number of the challenge and to the machine.
There are more operations than ways in which the work changes, and `Becomes` lists the ways. Pacer,
keeper, agenda, disk and journal are left out; that no operation but a step by hand looks at them
for its work is part of `Operation.becomes`.
-/

namespace TapeLab

theorem Catalog.get_eq_ok (c : Catalog) {index : Int} (hpos : 0 ≤ index)
    (hlt : index < c.challenges.length) : ∃ challenge, c.get index = .ok challenge := by
  have hposition : position? c.challenges.length index = some index.toNat :=
    if_pos ⟨hpos, hlt⟩
  have hmem : index.toNat < c.challenges.length := by omega
  exact ⟨c.challenges[index.toNat], by
    simp only [get, hposition, Option.bind_some, List.getElem?_eq_getElem hmem]⟩

structure Work where
  catalog : Catalog
  index : Int
  machine : Machine

namespace Work

def session (w : Work) : Session :=
  ⟨some w.index, some w.machine.rules, some w.machine.tape.cells, some w.machine.head⟩

def verdict? (c : Catalog) (index : Int) (m : Machine) : Option Verdict :=
  match m.active with
  | none => none
  | some rule =>
    if rule.next ≠ haltState then none else (c.get index).toOption.bind (verify m.tape.cells)

def judged (c : Catalog) (index : Int) (m : Machine) : Machine :=
  match verdict? c index m with
  | none => m
  | some v => { m with won := v.won, message := v.message }

def advanced (w : Work) : Work :=
  { w with machine := judged w.catalog w.index w.machine.step.1 }

/-- A session whose challenge there is not changes the number and nothing else. -/
def restored (w : Work) (s : Session) : Work :=
  match s.challenge with
  | none => { w with machine := Desk.overlay w.machine s }
  | some index =>
    match w.catalog.get index with
    | .error _ => { w with index := index }
    | .ok c =>
      { w with index := index, machine := Desk.overlay (Desk.setUp w.machine c) s }

/-- What one operation makes of the work, if the sessions that are restored are `kept` ones. -/
inductive Becomes (kept : Session → Prop) (w : Work) : Work → Prop
  | same : Becomes kept w w
  | advanced : Becomes kept w w.advanced
  | undone {m : Machine} : w.machine.undo? = some m → Becomes kept w { w with machine := m }
  | loaded (cells : List Symbol) (head : Int) :
      Becomes kept w { w with machine := w.machine.load cells head }
  | opened {index : Int} {c : Challenge} : 0 ≤ index → index < w.catalog.challenges.length →
      w.catalog.get index = .ok c →
      Becomes kept w { w with index := index, machine := Desk.setUp w.machine c }
  | ruled (t : RuleTable) : Becomes kept w { w with machine := { w.machine with rules := t } }
  | written {i : Nat} (s : Symbol) : i < w.machine.tape.size →
      Becomes kept w { w with machine := { w.machine with tape := w.machine.tape.set i s } }
  | extended :
      Becomes kept w { w with machine := { w.machine with tape := w.machine.tape.append } }
  | shortened {t : Tape} : w.machine.tape.dropLast? = some t →
      Becomes kept w { w with
        machine := { w.machine with tape := t, head := min w.machine.head (t.size - 1) } }
  | restored {s : Session} : kept s → Becomes kept w (w.restored s)

theorem judged_cases (c : Catalog) (index : Int) (m : Machine) :
    ∃ won message, judged c index m = { m with won := won, message := message } := by
  unfold judged
  split
  · exact ⟨m.won, m.message, rfl⟩
  · exact ⟨_, _, rfl⟩

section Judged

variable {c : Catalog} {index : Int} {m : Machine}

@[simp] theorem judged_rules : (judged c index m).rules = m.rules := by
  obtain ⟨_, _, h⟩ := judged_cases c index m
  rw [h]

@[simp] theorem judged_state : (judged c index m).state = m.state := by
  obtain ⟨_, _, h⟩ := judged_cases c index m
  rw [h]

@[simp] theorem judged_halted : (judged c index m).halted = m.halted := by
  obtain ⟨_, _, h⟩ := judged_cases c index m
  rw [h]

@[simp] theorem judged_tape : (judged c index m).tape = m.tape := by
  obtain ⟨_, _, h⟩ := judged_cases c index m
  rw [h]

@[simp] theorem judged_history : (judged c index m).history = m.history := by
  obtain ⟨_, _, h⟩ := judged_cases c index m
  rw [h]

end Judged

@[simp] theorem advanced_catalog (w : Work) : w.advanced.catalog = w.catalog := rfl

@[simp] theorem advanced_index (w : Work) : w.advanced.index = w.index := rfl

@[simp] theorem advanced_rules (w : Work) : w.advanced.machine.rules = w.machine.rules :=
  judged_rules.trans w.machine.step_rules

@[simp] theorem advanced_halted (w : Work) :
    w.advanced.machine.halted = w.machine.step.1.halted := judged_halted

@[simp] theorem advanced_history (w : Work) :
    w.advanced.machine.history = w.machine.step.1.history := judged_history

@[simp] theorem restored_catalog (w : Work) (s : Session) :
    (w.restored s).catalog = w.catalog := by
  unfold restored
  split
  · rfl
  · split <;> rfl

variable {kept : Session → Prop} {w v : Work}

theorem Becomes.catalog (h : Becomes kept w v) : v.catalog = w.catalog := by
  cases h with
  | restored _ => exact restored_catalog w _
  | _ => rfl

end Work

namespace Desk

def work (d : Desk) : Work := ⟨d.catalog, d.index, d.machine⟩

variable (d : Desk)

@[simp] theorem work_log (l : Log) : (d.log l).work = d.work := rfl

@[simp] theorem work_logAll (ls : List Log) : (d.logAll ls).work = d.work := by
  induction ls generalizing d with
  | nil => rfl
  | cons l ls ih => exact (ih (d.log l)).trans (work_log d l)

@[simp] theorem work_withPacer (p : Pacer × Agenda Alarm) : (d.withPacer p).work = d.work := rfl

@[simp] theorem work_stopRun : d.stopRun.work = d.work := rfl

@[simp] theorem work_withMachine (m : Machine) :
    (d.withMachine m).work = { d.work with machine := m } := rfl

@[simp] theorem work_withWork (k : KeeperWork Alarm) : (d.withWork k).1.work = d.work := by
  simp only [withWork, work_logAll]
  rfl

@[simp] theorem work_scheduleSave : d.scheduleSave.work = d.work := by
  unfold scheduleSave
  split <;> rfl

@[simp] theorem work_answerKeeper (alarm : KeeperAlarm) : (d.answerKeeper alarm).work = d.work := by
  unfold answerKeeper
  split
  · rfl
  · exact work_withWork d _

@[simp] theorem work_clearSave : d.clearSave.1.work = d.work := by
  unfold clearSave
  split
  · rfl
  · exact work_withWork d _

@[simp] theorem work_flush : d.flush.1.work = d.work := by
  unfold flush
  split
  · rfl
  · exact work_withWork d _

section Overlay

variable (m : Machine) (s : Session)

@[simp] theorem overlay_history : (overlay m s).history = m.history := by
  unfold overlay
  cases s.rules <;> cases s.cells <;> rfl

@[simp] theorem overlay_steps : (overlay m s).steps = m.steps := by
  unfold overlay
  cases s.rules <;> cases s.cells <;> rfl

end Overlay

theorem logAll_eq (ls : List Log) (d : Desk) : ∃ j, d.logAll ls = { d with journal := j } := by
  induction ls generalizing d with
  | nil => exact ⟨d.journal, rfl⟩
  | cons l ls ih => exact ih (d.log l)

theorem judge_cases :
    (∃ f, d.judge = .error f ∧ d.challenge = .error f ∧
      Work.judged d.catalog d.index d.machine = d.machine) ∨
    ∃ j, d.judge =
      .ok { d with machine := Work.judged d.catalog d.index d.machine, journal := j } := by
  unfold judge Work.judged Work.verdict?
  cases hactive : d.machine.active with
  | none => exact .inr ⟨d.journal, rfl⟩
  | some rule =>
    by_cases hnext : rule.next ≠ haltState
    · simp only [if_pos hnext]
      exact .inr ⟨d.journal, rfl⟩
    · simp only [if_neg hnext, show d.challenge = d.catalog.get d.index from rfl]
      cases hget : d.catalog.get d.index with
      | error f => exact .inl ⟨f, rfl, rfl, rfl⟩
      | ok c =>
        simp only [bind, Except.bind, pure, Except.pure, Except.toOption, Option.bind_some]
        cases verify d.machine.tape.cells c with
        | none => exact .inr ⟨d.journal, rfl⟩
        | some v =>
          rw [← hactive]
          exact .inr ⟨.logged (.judged c.name v.won) :: d.journal, rfl⟩

theorem work_advance : d.advance.desk.work = d.work.advanced := by
  unfold advance
  cases hstep : d.machine.step with
  | mk m answer =>
    have hadvanced : d.work.advanced =
        { d.work with machine := Work.judged d.catalog d.index m } := by
      simp only [Work.advanced, work, hstep]
    rw [hadvanced]
    cases answer with
    | error e =>
      have hactive := Machine.active_of_step_error hstep
      simp [Work.judged, Work.verdict?, hactive, Outcome.failed]
    | ok more =>
      obtain ⟨j, hj⟩ := logAll_eq (stepLog d.machine m) (d.withMachine m)
      dsimp only
      rw [hj]
      rcases judge_cases { d.withMachine m with journal := j } with
        ⟨f, hjudge, -, hjudged⟩ | ⟨k, hjudge⟩
      · rw [hjudge, show Work.judged d.catalog d.index m = m from hjudged]
        rfl
      · rw [hjudge]
        rfl

theorem advance_eq {m : Machine} {more : Bool} {c : Challenge}
    (hstep : d.machine.step = (m, .ok more)) (hc : d.challenge = .ok c) :
    ∃ j, d.advance = .changed
      { d with machine := Work.judged d.catalog d.index m, journal := j } more
      (if m.active.isSome then .kept else .passing) := by
  obtain ⟨j, hj⟩ := logAll_eq (stepLog d.machine m) (d.withMachine m)
  unfold advance
  rw [hstep]
  dsimp only
  rw [hj]
  rcases judge_cases { d.withMachine m with journal := j } with ⟨f, -, hf, -⟩ | ⟨k, hjudge⟩
  · exact absurd (hf.symm.trans hc) (by simp)
  · rw [hjudge]
    exact ⟨k, rfl⟩

theorem work_run : d.run.desk.work = d.work := by
  unfold run
  split
  · rfl
  · split
    · rfl
    · split <;> rfl

theorem work_pause : d.pause.desk.work = d.work := by
  unfold pause
  split <;> rfl

theorem work_setSpeed (milliseconds : Int) : (d.setSpeed milliseconds).desk.work = d.work := by
  unfold setSpeed
  dsimp only
  split <;> rfl

theorem work_restore (s : Session) : (d.restore s).desk.work = d.work.restored s := by
  unfold restore Work.restored
  dsimp only
  cases s.challenge with
  | none =>
    dsimp only
    split <;> rfl
  | some index =>
    have hchallenge : challenge { d.stopRun with index := index } = d.catalog.get index := rfl
    have hcatalog : d.work.catalog = d.catalog := rfl
    dsimp only
    rw [hchallenge, hcatalog]
    cases d.catalog.get index with
    | error f => rfl
    | ok c =>
      dsimp only [Except.map]
      split <;> rfl

theorem loadChallenge_eq {index : Int} {c : Challenge} (hpos : 0 ≤ index)
    (hlt : index < d.catalog.challenges.length) (hc : d.catalog.get index = .ok c) :
    d.loadChallenge index =
      .changed (({ d.stopRun with index := index }.withMachine (setUp d.machine c)).log
        (.loaded c.name)) () .kept := by
  have hchallenge : challenge { d.stopRun with index := index } = .ok c := hc
  unfold loadChallenge
  rw [if_pos ⟨hpos, hlt⟩]
  dsimp only
  rw [hchallenge]
  rfl

theorem undo_cases :
    d.undo = .refused (if d.running then d else d.stopRun) false ∨
    ∃ m, d.machine.undo? = some m ∧
      d.undo = .changed ((d.stopRun.withMachine m).log (.undone m.steps)) true .kept := by
  unfold undo
  cases d.running with
  | true => exact .inl rfl
  | false =>
    have hmachine : d.stopRun.machine = d.machine := rfl
    simp only [Bool.false_eq_true, if_false, hmachine]
    cases hundo : d.machine.undo? with
    | none => exact .inl rfl
    | some m => exact .inr ⟨m, rfl, rfl⟩

variable {d} in
theorem step_eq_advance (hidle : d.running = false) (hhalted : d.machine.halted = false) :
    d.step = d.advance := by
  rw [step, hidle, hhalted]
  rfl

variable {d} in
theorem undo_eq (hidle : d.running = false) {m : Machine} (hundo : d.machine.undo? = some m) :
    d.undo = .changed ((d.stopRun.withMachine m).log (.undone m.steps)) true .kept := by
  have hstop : d.stopRun.machine.undo? = some m := hundo
  unfold undo
  rw [hidle]
  simp only [Bool.false_eq_true, if_false, hstop]

theorem work_reset {c : Challenge} (hc : d.challenge = .ok c) :
    d.reset.desk.work = { d.work with machine := d.machine.load c.cells c.head } := by
  have hstop : d.stopRun.challenge = .ok c := hc
  obtain ⟨e, he⟩ : ∃ e, e = d.stopRun.withMachine (d.stopRun.machine.load c.cells c.head) :=
    ⟨_, rfl⟩
  have hwork : e.clearSave.1.work = { d.work with machine := d.machine.load c.cells c.head } := by
    rw [work_clearSave, he]
    rfl
  unfold reset
  simp only [hstop, ← he]
  split
  · next e' f he' =>
    rw [he'] at hwork
    exact hwork
  · next e' he' =>
    rw [he'] at hwork
    exact hwork

variable (kept : Session → Prop)

open Work

theorem becomes_step : Becomes kept d.work d.step.desk.work := by
  unfold step
  split
  · exact .same
  · rw [work_advance]
    exact .advanced

theorem becomes_undo : Becomes kept d.work d.undo.desk.work := by
  rcases d.undo_cases with hrefused | ⟨m, hm, hundo⟩
  · rw [hrefused]
    cases d.running <;> exact .same
  · rw [hundo]
    exact .undone hm

theorem becomes_reset : Becomes kept d.work d.reset.desk.work := by
  cases hc : d.challenge with
  | error f =>
    have hstop : d.stopRun.challenge = .error f := hc
    unfold reset
    simp only [hstop]
    exact .same
  | ok c =>
    rw [d.work_reset hc]
    exact .loaded _ _

theorem becomes_loadChallenge (index : Int) :
    Becomes kept d.work (d.loadChallenge index).desk.work := by
  by_cases hindex : 0 ≤ index ∧ index < d.catalog.challenges.length
  · obtain ⟨c, hc⟩ := d.catalog.get_eq_ok hindex.1 hindex.2
    rw [d.loadChallenge_eq hindex.1 hindex.2 hc]
    exact .opened hindex.1 hindex.2 hc
  · rw [loadChallenge, if_neg hindex]
    exact .same

theorem becomes_updateRule (index : Int) (field value : String) :
    Becomes kept d.work (d.updateRule index field value).desk.work := by
  unfold updateRule
  split
  · exact .same
  · exact .same
  · exact .ruled _

theorem becomes_deleteRule (index : Int) : Becomes kept d.work (d.deleteRule index).desk.work := by
  unfold deleteRule
  split
  · exact .same
  · exact .ruled _

theorem becomes_editCell (index : Int) (value : String) :
    Becomes kept d.work (d.editCell index value).desk.work := by
  unfold editCell
  split
  · exact .same
  · next t ht =>
    unfold Tape.setCell? at ht
    split at ht
    · next hindex =>
      obtain ⟨s, -, rfl⟩ := Option.map_eq_some_iff.1 ht
      have hi : index.toNat < d.machine.tape.size := by omega
      exact .written s hi
    · cases ht

theorem becomes_removeCell : Becomes kept d.work d.removeCell.desk.work := by
  unfold removeCell
  split
  · exact .same
  · next t ht => exact .shortened ht

end Desk

theorem Operation.becomes (kept : Session → Prop) (d : Desk) (op : Operation)
    (h : ∀ s, op = .restore s → kept s) : Work.Becomes kept d.work (op.apply d).desk.work := by
  cases op with
  | step => exact d.becomes_step kept
  | run => exact d.work_run ▸ .same
  | pause => exact d.work_pause ▸ .same
  | undo => exact d.becomes_undo kept
  | reset => exact d.becomes_reset kept
  | loadChallenge index => exact d.becomes_loadChallenge kept index
  | useRules t => exact .ruled t
  | loadTape cells head => exact .loaded cells head
  | setSpeed milliseconds => exact d.work_setSpeed milliseconds ▸ .same
  | addRule => exact .ruled _
  | updateRule index field value => exact d.becomes_updateRule kept index field value
  | deleteRule index => exact d.becomes_deleteRule kept index
  | editCell index value => exact d.becomes_editCell kept index value
  | addCell => exact .extended
  | removeCell => exact d.becomes_removeCell kept
  | restore s => exact d.work_restore s ▸ .restored (h s rfl)

end TapeLab
