import Mathlib.Data.Nat.Find
import TapeLab.Proofs.Desk.Bounds
import TapeLab.Proofs.Machine.Simulation

/-!
Advancing. As far as the machine goes, a step at a desk is a step of the machine, and a verdict if
that step has entered the halting state; so the machine that is advanced again and again follows the
machine of the textbooks just as well.
-/

namespace TapeLab

open Machine Textbook

namespace Work

variable {c : Catalog} {index : Int} {m : Machine} {t : RuleTable} {start : Config} {before : Int}
  {n j : Nat}

theorem follows_judged (h : Follows t start before n j m) :
    Follows t start before n j (judged c index m) := by
  obtain ⟨_, _, hjudged⟩ := judged_cases c index m
  rw [hjudged]
  exact ⟨h.rules, h.run, h.counted, h.onTape, h.le, h.final, h.halted⟩

def advanceMany : Nat → Work → Work
  | 0, w => w
  | n + 1, w => (advanceMany n w).advanced

variable {w : Work} {challenge : Challenge}

@[simp] theorem advanceMany_catalog (n : Nat) (w : Work) :
    (w.advanceMany n).catalog = w.catalog := by
  induction n with
  | zero => rfl
  | succ n ih => exact ih

@[simp] theorem advanceMany_index (n : Nat) (w : Work) : (w.advanceMany n).index = w.index := by
  induction n with
  | zero => rfl
  | succ n ih => exact ih

@[simp] theorem advanceMany_rules (n : Nat) (w : Work) :
    (w.advanceMany n).machine.rules = w.machine.rules := by
  induction n with
  | zero => rfl
  | succ n ih => exact (advanced_rules _).trans ih

theorem Bounded.advanceMany (h : w.Bounded) (n : Nat) : (w.advanceMany n).Bounded := by
  induction n with
  | zero => exact h
  | succ n ih =>
    have hbecomes : Becomes (fun _ => False) (w.advanceMany n) (w.advanceMany (n + 1)) := .advanced
    exact ih.becomes (fun _ hs => hs.elim) hbecomes

theorem follows_advanceMany (hon : w.machine.OnTape) (hhalted : w.machine.halted = false)
    (hstate : w.machine.state ≠ haltState) (n : Nat) :
    ∃ j, Follows w.machine.rules w.machine.config w.machine.steps n j
      (w.advanceMany n).machine := by
  induction n with
  | zero => exact ⟨0, follows_start hon hhalted hstate⟩
  | succ n ih =>
    obtain ⟨j, hj⟩ := ih
    obtain ⟨i, hi⟩ := hj.step
    exact ⟨i, follows_judged hi⟩

/-- Advanced so many times, the machine has halted or has made `limit` transitions, and not
before. -/
structure Stops (limit : Nat) (w : Work) (n : Nat) : Prop where
  before : ∀ k < n,
    (w.advanceMany k).machine.halted = false ∧ (w.advanceMany k).machine.steps < limit
  stopped : (w.advanceMany n).machine.halted = true ∨ (w.advanceMany n).machine.steps = limit

variable {limit : Nat}

theorem advanced_steps (hon : w.machine.OnTape) :
    w.advanced.machine.steps = w.machine.steps + 1 ∨
      (w.advanced.machine.halted = true ∧ w.advanced.machine.steps = w.machine.steps) := by
  have hsteps : w.advanced.machine.steps = w.machine.step.1.steps := by
    obtain ⟨_, _, hjudged⟩ := judged_cases w.catalog w.index w.machine.step.1
    rw [advanced, hjudged]
  rw [hsteps, advanced_halted]
  cases hrule : w.machine.rule? with
  | some r =>
    rw [step_of_rule hon hrule]
    exact .inl rfl
  | none =>
    obtain ⟨message, lastStep, hstep⟩ := step_of_no_rule hrule
    rw [hstep]
    exact .inr ⟨rfl, rfl⟩

theorem steps_succ_le (h : w.Bounded) (n : Nat) :
    (w.advanceMany (n + 1)).machine.steps ≤ (w.advanceMany n).machine.steps + 1 := by
  rcases advanced_steps (h.advanceMany n).machine.onTape with hmore | ⟨-, hsame⟩
  · exact Int.le_of_eq hmore
  · exact Int.le_trans (Int.le_of_eq hsame) (Int.le_add_one (Int.le_refl _))

theorem steps_advanceMany (h : w.Bounded) (hsteps : w.machine.steps = 0)
    (hgoing : ∀ k ≤ n, (w.advanceMany k).machine.halted = false) :
    (w.advanceMany n).machine.steps = n := by
  induction n with
  | zero => exact hsteps
  | succ n ih =>
    have hlast := ih fun k hk => hgoing k (Nat.le_succ_of_le hk)
    rcases advanced_steps (h.advanceMany n).machine.onTape with hmore | ⟨hhalted, -⟩
    · rw [advanceMany, hmore, hlast]
      rfl
    · exact absurd (hhalted.symm.trans (hgoing (n + 1) (Nat.le_refl _))) (by simp)

theorem Stops.not_going (hstops : Stops limit w n) :
    ¬ ((w.advanceMany n).machine.halted = false ∧ (w.advanceMany n).machine.steps < limit) := by
  rintro ⟨hhalted, hsteps⟩
  rcases hstops.stopped with hstopped | hstopped
  · rw [hhalted] at hstopped
    cases hstopped
  · rw [hstopped] at hsteps
    exact Int.lt_irrefl _ hsteps

theorem Stops.unique {m : Nat} (hn : Stops limit w n) (hm : Stops limit w m) : n = m :=
  Nat.le_antisymm (Nat.le_of_not_lt fun hlt => hm.not_going (hn.before m hlt))
    (Nat.le_of_not_lt fun hlt => hn.not_going (hm.before n hlt))

theorem Stops.steps_le (h : w.Bounded) (hstops : Stops limit w n) (hsteps : w.machine.steps ≤ limit)
    {k : Nat} (hk : k ≤ n) : (w.advanceMany k).machine.steps ≤ limit := by
  cases k with
  | zero => exact hsteps
  | succ k => exact Int.le_trans (steps_succ_le h k) (hstops.before k hk).2

theorem Stops.le (h : w.Bounded) (hsteps : w.machine.steps = 0) (hstops : Stops limit w n) :
    n ≤ limit := by
  refine Nat.le_of_not_lt fun hlt => ?_
  obtain ⟨-, hmany⟩ := hstops.before limit hlt
  rw [steps_advanceMany h hsteps fun k hk => (hstops.before k (Nat.lt_of_le_of_lt hk hlt)).1]
    at hmany
  exact Int.lt_irrefl _ hmany

theorem Stops.eq_limit (h : w.Bounded) (hsteps : w.machine.steps = 0) (hstops : Stops limit w n)
    (hhalted : (w.advanceMany n).machine.halted = false) : n = limit := by
  have hmany := hstops.stopped.resolve_left (by simp [hhalted])
  rw [steps_advanceMany h hsteps fun k hk => ?_] at hmany
  · exact Int.ofNat.inj hmany
  · rcases Nat.lt_or_eq_of_le hk with hlt | rfl
    · exact (hstops.before k hlt).1
    · exact hhalted

theorem exists_stops (h : w.Bounded) (hsteps : w.machine.steps = 0) : ∃ n, Stops limit w n := by
  have hexists : ∃ n, (w.advanceMany n).machine.halted = true ∨ n = limit := ⟨limit, .inr rfl⟩
  refine ⟨Nat.find hexists, fun k hk => ?_, ?_⟩
  · have hgoing : ∀ i ≤ k, (w.advanceMany i).machine.halted = false := fun i hi => by
      have hnot := Nat.find_min hexists (Nat.lt_of_le_of_lt hi hk)
      simpa using fun hhalted => hnot (.inl hhalted)
    refine ⟨hgoing k (Nat.le_refl k), ?_⟩
    rw [steps_advanceMany h hsteps hgoing]
    exact Int.ofNat_lt.2 (Nat.lt_of_lt_of_le hk (Nat.find_min' hexists (.inr rfl)))
  · rcases Nat.find_spec hexists with hhalted | hlimit
    · exact .inl hhalted
    · by_cases hhalted : (w.advanceMany (Nat.find hexists)).machine.halted = true
      · exact .inl hhalted
      · refine .inr ?_
        rw [steps_advanceMany h hsteps fun k hk => ?_, hlimit]
        rcases Nat.lt_or_eq_of_le hk with hlt | rfl
        · simpa using fun h' => Nat.find_min hexists hlt (.inl h')
        · simpa using hhalted

def Meets (challenge : Challenge) (m : Machine) : Prop :=
  ∃ expected, challenge.expected = some expected ∧ written m.tape.cells = written expected

theorem judged_won (hget : c.get index = .ok challenge) {r : Rule} (hactive : m.active = some r)
    (hnext : r.next = haltState) (hwon : m.won = false) :
    (judged c index m).won = true ↔ Meets challenge m := by
  have hverdict : verdict? c index m = verify m.tape.cells challenge := by
    simp [verdict?, hactive, hnext, hget, Except.toOption]
  unfold judged Meets
  rw [hverdict, verify]
  cases challenge.expected with
  | none => simp [hwon]
  | some expected =>
    by_cases h : written m.tape.cells = written expected <;> simp [h]

theorem judged_of_no_entry (h : ∀ r, m.active = some r → r.next ≠ haltState) :
    judged c index m = m := by
  have hverdict : verdict? c index m = none := by
    unfold verdict?
    split
    · rfl
    · next r hr => rw [if_pos (h r hr)]
  unfold judged
  rw [hverdict]

theorem advanced_won (hget : w.catalog.get w.index = .ok challenge) (hon : w.machine.OnTape)
    (hwon : w.machine.won = false) (hstate : w.machine.state ≠ haltState) :
    w.advanced.machine.won = true ↔
      w.advanced.machine.state = haltState ∧ Meets challenge w.advanced.machine := by
  cases hrule : w.machine.rule? with
  | some r =>
    have hadvanced : w.advanced.machine = judged w.catalog w.index (w.machine.applied r) := by
      simp only [advanced, step_of_rule hon hrule]
    by_cases hnext : r.next = haltState
    · have hjudged := judged_won hget (m := w.machine.applied r) applied_active hnext hwon
      rw [hadvanced, hjudged, judged_state, applied_state]
      simp only [hnext, Meets, judged_tape, true_and]
    · have hjudged : judged w.catalog w.index (w.machine.applied r) = w.machine.applied r :=
        judged_of_no_entry fun s hs => by cases hs; exact hnext
      rw [hadvanced, hjudged]
      simp [hwon, hnext]
  | none =>
    obtain ⟨message, lastStep, hstep⟩ := step_of_no_rule hrule
    have hadvanced : w.advanced.machine = w.machine.step.1 := by
      simp only [advanced, hstep]
      exact judged_of_no_entry fun s hs => by cases hs
    rw [hadvanced, hstep]
    simp [unmarked, hwon, hstate]

end Work

end TapeLab
