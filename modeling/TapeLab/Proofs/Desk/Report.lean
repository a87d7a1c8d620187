import TapeLab.Proofs.Desk.Advance

/-!
What a step at a desk tells. Its answer, the change that it announces and what it puts into the
journal depend on nothing but the work.
-/

namespace TapeLab

namespace Work

def judgeable (c : Catalog) (index : Int) (m : Machine) : Except Fault Unit :=
  if ∃ r, m.active = some r ∧ r.next = haltState then (c.get index).map fun _ => () else .ok ()

variable {c : Catalog} {index : Int} {m : Machine}

theorem verdict?_of_error {f : Fault} (h : judgeable c index m = .error f) :
    verdict? c index m = none := by
  unfold judgeable at h
  split at h
  · cases hget : c.get index with
    | error f =>
      unfold verdict?
      rw [hget]
      cases m.active with
      | none => rfl
      | some rule => exact ite_self _
    | ok challenge =>
      rw [hget] at h
      cases h
  · cases h

def verdictLog (c : Catalog) (index : Int) (m : Machine) : List Log :=
  match verdict? c index m, c.get index with
  | some v, .ok challenge => [.judged challenge.name v.won]
  | _, _ => []

def answer (u : Work) : Except Fault Bool :=
  match u.machine.step with
  | (_, .error e) => .error (.tape e)
  | (m, .ok more) => (judgeable u.catalog u.index m).map fun _ => more

def report (u : Work) : List Log :=
  match u.machine.step with
  | (_, .error _) => []
  | (m, .ok _) => Desk.stepLog u.machine m ++ verdictLog u.catalog u.index m

def change (u : Work) : Option Change :=
  match u.answer with
  | .error _ => none
  | .ok _ => some (if u.machine.step.1.active.isSome then .kept else .passing)

theorem verdict?_of_entry {r : Rule} {challenge : Challenge} (hactive : m.active = some r)
    (hnext : r.next = haltState) (hget : c.get index = .ok challenge) :
    verdict? c index m = verify m.tape.cells challenge := by
  simp [verdict?, hactive, hnext, hget, Except.toOption]

theorem Bounded.answer {u : Work} (h : u.Bounded) :
    u.answer = .ok (!u.advanced.machine.halted) := by
  obtain ⟨more, hmore, hhalts⟩ := Machine.step_answer h.machine.onTape
  obtain ⟨challenge, hget⟩ := u.catalog.get_eq_ok h.index.1 h.index.2
  have hjudgeable : judgeable u.catalog u.index u.machine.step.1 = .ok () := by
    unfold judgeable
    rw [hget]
    exact ite_self _
  have hanswer : u.answer = .ok more := by
    unfold Work.answer
    rw [show u.machine.step = (u.machine.step.1, .ok more) from Prod.ext rfl hmore]
    simp only [hjudgeable]
    rfl
  rw [hanswer, advanced_halted]
  cases more with
  | true => rw [hhalts.1 rfl, Bool.not_false]
  | false =>
    cases hhalted : u.machine.step.1.halted with
    | true => rfl
    | false => exact absurd (hhalts.2 hhalted) (by simp)

theorem Bounded.change {u : Work} (h : u.Bounded) :
    u.change = some (if u.machine.step.1.active.isSome then .kept else .passing) := by
  unfold Work.change
  rw [h.answer]

end Work

namespace Desk

theorem logAll_eq_journal (ls : List Log) (d : Desk) :
    d.logAll ls = { d with journal := (ls.map .logged).reverse ++ d.journal } := by
  induction ls generalizing d with
  | nil => rfl
  | cons l ls ih =>
    refine (ih (d.log l)).trans ?_
    simp [log]

theorem judge_eq (d : Desk) :
    d.judge = (Work.judgeable d.catalog d.index d.machine).map fun _ =>
      { d with
        machine := Work.judged d.catalog d.index d.machine
        journal := ((Work.verdictLog d.catalog d.index d.machine).map .logged).reverse ++
          d.journal } := by
  unfold judge Work.judgeable Work.judged Work.verdictLog Work.verdict?
  cases hactive : d.machine.active with
  | none => simp [Except.map]
  | some rule =>
    by_cases hnext : rule.next = haltState
    · simp only [hnext, ne_eq, not_true_eq_false, if_false, Option.some.injEq, exists_eq_left',
        if_true, show d.challenge = d.catalog.get d.index from rfl]
      cases hget : d.catalog.get d.index with
      | error f => rfl
      | ok c =>
        simp only [bind, Except.bind, pure, Except.pure, Except.map, Except.toOption,
          Option.bind_some]
        cases verify d.machine.tape.cells c with
        | none => rfl
        | some v =>
          rw [← hactive]
          rfl
    · simp [hnext, Except.map]

theorem advance_eq_report (d : Desk) :
    d.advance =
      ⟨{ d with
        machine := d.work.advanced.machine
        journal := (d.work.report.map .logged).reverse ++ d.journal }, d.work.answer,
        d.work.change⟩ := by
  unfold advance Work.change Work.answer Work.report Work.advanced
  rw [show d.work.machine = d.machine from rfl]
  cases hstep : d.machine.step with
  | mk m answer =>
    cases answer with
    | error e =>
      have hjudged : Work.judged d.work.catalog d.work.index m = m :=
        Work.judged_of_no_entry fun r hr => by
          rw [Machine.active_of_step_error hstep] at hr
          cases hr
      simp only [hjudged]
      rfl
    | ok more =>
      simp only [logAll_eq_journal, judge_eq]
      rw [show Work.judgeable (d.withMachine m).catalog (d.withMachine m).index
        (d.withMachine m).machine = Work.judgeable d.work.catalog d.work.index m from rfl]
      cases hjudgeable : Work.judgeable d.work.catalog d.work.index m with
      | error f =>
        have hnone := Work.verdict?_of_error hjudgeable
        simp only [Work.judged, Work.verdictLog, hnone, List.append_nil]
        rfl
      | ok _ =>
        simp only [List.map_append, List.reverse_append, List.append_assoc]
        rfl

end Desk

end TapeLab
