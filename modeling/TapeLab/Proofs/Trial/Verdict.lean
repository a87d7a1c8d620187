import TapeLab.Proofs.Trial.Run

/-!
The verdict of a trial. Its machine has entered the halting state, and then it has won if it shows
what is expected; or no rule has matched; or the limit has stopped it on a run of the textbooks'
machine that goes on.
-/

namespace TapeLab.Trial

open Machine Textbook

structure Poised (w : Work) : Prop where
  bounded : w.Bounded
  halted : w.machine.halted = false
  state : w.machine.state ≠ haltState
  steps : w.machine.steps = 0

variable {only : Prop} {limit : Nat} {trace : Bool} {host : Host} {w : Workbench} {start : Work}
  {delay : Int} {number i : Nat} {challenge : Challenge}

theorem Poised.follows (h : Poised start) (i : Nat) :
    ∃ j, Machine.Follows start.machine.rules start.machine.config 0 i j
      (start.advanceMany i).machine :=
  h.steps ▸ Work.follows_advanceMany h.bounded.machine.onTape h.halted h.state i

theorem Poised.follows_of_running (h : Poised start)
    (hi : (start.advanceMany i).machine.halted = false) :
    Machine.Follows start.machine.rules start.machine.config 0 i i
      (start.advanceMany i).machine := by
  obtain ⟨j, hj⟩ := h.follows i
  have hle := hj.le
  have hnot : ¬ j < i := fun hlt => by
    have := hj.halted.2 (.inr hlt)
    simp [hi] at this
  obtain rfl : j = i := by omega
  exact hj

theorem Poised.state_ne_halt (h : Poised start)
    (hi : (start.advanceMany i).machine.halted = false) :
    (start.advanceMany i).machine.state ≠ haltState := by
  intro hstate
  have := (h.follows_of_running hi).halted.2 (.inl hstate)
  rw [hi] at this
  cases this

theorem Poised.won_succ (h : Poised start) (hget : start.catalog.get start.index = .ok challenge)
    (hi : (start.advanceMany i).machine.halted = false)
    (hwon : (start.advanceMany i).machine.won = false) :
    (start.advanceMany (i + 1)).machine.won = true ↔
      (start.advanceMany (i + 1)).machine.state = haltState ∧
        Work.Meets challenge (start.advanceMany (i + 1)).machine :=
  Work.advanced_won (by rwa [Work.advanceMany_catalog, Work.advanceMany_index])
    (h.follows_of_running hi).onTape hwon (h.state_ne_halt hi)

theorem Poised.won_eq_false (h : Poised start) (hwon : start.machine.won = false)
    (hget : start.catalog.get start.index = .ok challenge)
    (hi : ∀ k ≤ i, (start.advanceMany k).machine.halted = false) :
    (start.advanceMany i).machine.won = false := by
  induction i with
  | zero => exact hwon
  | succ i ih =>
    have hbefore := ih fun k hk => hi k (Nat.le_succ_of_le hk)
    have hiff := h.won_succ hget (hi i (Nat.le_succ i)) hbefore
    have hstate := h.state_ne_halt (hi (i + 1) (Nat.le_refl _))
    rw [← Bool.not_eq_true, hiff]
    exact fun hhalt => hstate hhalt.1

/-- How the machine of a trial stands in the end, as a machine of the textbooks. -/
inductive Verdict (challenge : Challenge) (t : RuleTable) (c : Config) (limit : Nat) (m : Machine) :
    Prop
  | halts : m.halted = true → Halts t c limit m.config →
      (m.won = true ↔ Work.Meets challenge m) → Verdict challenge t c limit m
  | sticks {n : Nat} : m.halted = true → n < limit → Steps t c n m.config → Stuck t m.config →
      m.won = false → Verdict challenge t c limit m
  | goesOn : m.halted = false → Steps t c limit m.config → m.state ≠ haltState →
      Verdict challenge t c limit m

theorem Ended.verdict (hstart : Poised start) (hwon : start.machine.won = false)
    (hget : start.catalog.get start.index = .ok challenge)
    (h : Ended only limit trace host start delay number i w) :
    Verdict challenge start.machine.rules start.machine.config limit w.desk.machine := by
  have hmachine : w.desk.machine = (start.advanceMany i).machine := congrArg Work.machine h.work
  rw [hmachine]
  cases hhalted : (start.advanceMany i).machine.halted with
  | false =>
    obtain rfl := h.stops.eq_limit hstart.bounded hstart.steps hhalted
    exact .goesOn hhalted (hstart.follows_of_running hhalted).run (hstart.state_ne_halt hhalted)
  | true =>
    obtain ⟨k, rfl⟩ : ∃ k, i = k + 1 := by
      refine Nat.exists_eq_succ_of_ne_zero fun hzero => ?_
      rw [hzero] at hhalted
      exact absurd (hstart.halted.symm.trans hhalted) (by simp)
    obtain ⟨j, hj⟩ := hstart.follows (k + 1)
    have hle := h.stops.le hstart.bounded hstart.steps
    have hkwon := hstart.won_eq_false (i := k) hwon hget fun l hl =>
      (h.stops.before l (by omega)).1
    have hiff := hstart.won_succ hget (h.stops.before k (Nat.lt_succ_self k)).1 hkwon
    by_cases hstate : (start.advanceMany (k + 1)).machine.state = haltState
    · refine .halts hhalted ⟨j, Nat.le_trans hj.le hle, hj.run, hstate⟩ ?_
      rw [hiff]
      simp only [hstate, true_and]
    · have hlt : j < k + 1 := (hj.halted.1 hhalted).resolve_left hstate
      have hstuck := (hj.final hlt).halt_or_stuck.resolve_left hstate
      refine .sticks hhalted (Nat.lt_of_lt_of_le hlt hle) hj.run hstuck ?_
      rw [← Bool.not_eq_true, hiff]
      exact fun hhalt => hstate hhalt.1

section Met

variable {t : RuleTable} {c : Config} {m : Machine}

theorem Verdict.met_iff (h : Verdict challenge t c limit m) {expected : List Symbol}
    (hexpected : challenge.expected = some expected) :
    (m.halted && m.won) = true ↔ ∃ d, Halts t c limit d ∧ Shows d (written expected) := by
  rw [Bool.and_eq_true]
  cases h with
  | halts hhalted hhalts hwon =>
    have hfinal : Final t m.config := by
      obtain ⟨n, -, -, hstate⟩ := hhalts
      exact final_of_halt hstate
    obtain ⟨n, -, hn, -⟩ := id hhalts
    rw [hwon]
    constructor
    · rintro ⟨-, word, hword, hwritten⟩
      rw [hexpected] at hword
      obtain rfl := Option.some.inj hword
      exact ⟨m.config, hhalts, hwritten ▸ m.shows_config⟩
    · rintro ⟨d, hd, hshows⟩
      obtain rfl := hd.eq hfinal hn
      exact ⟨hhalted, expected, hexpected, m.shows_config.unique hshows⟩
  | sticks hhalted hlt hn hstuck hwon =>
    refine iff_of_false (fun h => ?_) ?_
    · rw [hwon] at h
      cases h.2
    · rintro ⟨d, hd, -⟩
      obtain rfl := hd.eq hstuck.final hn
      obtain ⟨_, -, -, hstate⟩ := hd
      exact hstuck.1 hstate
  | goesOn hhalted hn hstate =>
    refine iff_of_false (fun h => ?_) ?_
    · rw [hhalted] at h
      cases h.1
    · rintro ⟨d, hd, -⟩
      exact not_halts_of_steps hn hstate hd

theorem Verdict.halted_iff (h : Verdict challenge t c limit m) :
    m.halted = true ↔ (∃ d, Halts t c limit d) ∨ GetsStuck t c limit := by
  cases h with
  | halts hhalted hhalts _ => exact iff_of_true hhalted (.inl ⟨_, hhalts⟩)
  | sticks hhalted hlt hn hstuck _ => exact iff_of_true hhalted (.inr ⟨_, _, hlt, hn, hstuck⟩)
  | goesOn hhalted hn hstate =>
    refine iff_of_false (by simp [hhalted]) ?_
    rintro (⟨d, hd⟩ | hstuck)
    · exact not_halts_of_steps hn hstate hd
    · exact not_getsStuck_of_steps hn hstuck

end Met

end TapeLab.Trial
