import TapeLab.Proofs.Desk.Bounds

/-!
The history as a record of the steps. A transition pushes the machine as it was before, a load
clears the history together with the count of steps, and going back takes both back; so the numbers
of the snapshots count down, without a gap, from the last step to where the history has forgotten.
-/

namespace TapeLab

/-- Snapshots, the newest first, that have been taken before each of the last steps, none of them in
the halting state. -/
def CountsDown : Int → List Snapshot → Prop
  | steps, [] => 0 ≤ steps
  | steps, s :: rest => s.steps = steps - 1 ∧ s.state ≠ haltState ∧ CountsDown s.steps rest

namespace CountsDown

variable {steps : Int} {l : List Snapshot}

theorem length_le (h : CountsDown steps l) : l.length ≤ steps := by
  induction l generalizing steps with
  | nil => exact h
  | cons s rest ih =>
    obtain ⟨hsteps, -, hrest⟩ := h
    have hlength := ih hrest
    rw [List.length_cons]
    omega

theorem take (h : CountsDown steps l) (n : Nat) : CountsDown steps (l.take n) := by
  induction n generalizing steps l with
  | zero =>
    have hlength := h.length_le
    show 0 ≤ steps
    omega
  | succ n ih =>
    cases l with
    | nil => exact h
    | cons s rest =>
      obtain ⟨hsteps, hstate, hrest⟩ := h
      exact ⟨hsteps, hstate, ih hrest⟩

theorem state_ne (h : CountsDown steps l) : ∀ s ∈ l, s.state ≠ haltState := by
  induction l generalizing steps with
  | nil => exact fun s hs => absurd hs List.not_mem_nil
  | cons t rest ih =>
    obtain ⟨-, hstate, hrest⟩ := h
    intro s hs
    rcases List.mem_cons.1 hs with rfl | hs
    · exact hstate
    · exact ih hrest s hs

theorem steps_getElem (h : CountsDown steps l) (i : Nat) (hi : i < l.length) :
    l[i].steps = steps - 1 - i := by
  induction l generalizing steps i with
  | nil => exact absurd hi (Nat.not_lt_zero i)
  | cons s rest ih =>
    obtain ⟨hsteps, -, hrest⟩ := h
    cases i with
    | zero =>
      show s.steps = steps - 1 - 0
      omega
    | succ i =>
      have hi' : i < rest.length := Nat.lt_of_succ_lt_succ hi
      have hrecord : rest[i].steps = s.steps - 1 - i := ih hrest i hi'
      rw [List.getElem_cons_succ]
      omega

theorem map_steps (h : CountsDown steps l) :
    l.map Snapshot.steps = (List.range l.length).map fun i : Nat => steps - 1 - i := by
  refine List.ext_getElem (by simp) fun i hi _ => ?_
  rw [List.length_map] at hi
  simp only [List.getElem_map, List.getElem_range]
  exact h.steps_getElem i hi

end CountsDown

namespace Machine

variable {m n : Machine}

structure Chronicled (m : Machine) : Prop where
  size_le : m.history.size ≤ m.history.bounds.cap
  countsDown : CountsDown m.steps m.history.entries

theorem Chronicled.same (h : m.Chronicled) (hsteps : n.steps = m.steps)
    (hhistory : n.history = m.history) : n.Chronicled where
  size_le := by rw [hhistory]; exact h.size_le
  countsDown := by rw [hsteps, hhistory]; exact h.countsDown

theorem chronicled_start (t : RuleTable) (tape : Tape) (head : Int) (state : String)
    (b : History.Bounds) : (start t tape head state 0 b).Chronicled :=
  ⟨Nat.zero_le _, Int.le_refl 0⟩

theorem chronicled_load (m : Machine) (cells : List Symbol) (head : Int) :
    (m.load cells head).Chronicled :=
  ⟨Nat.zero_le _, Int.le_refl 0⟩

theorem chronicled_setUp (m : Machine) (c : Challenge) : (Desk.setUp m c).Chronicled :=
  (m.chronicled_load c.cells c.head).same rfl rfl

theorem Chronicled.overlay (h : m.Chronicled) (s : Session) : (Desk.overlay m s).Chronicled :=
  h.same (Desk.overlay_steps m s) (Desk.overlay_history m s)

theorem Chronicled.step (h : m.Chronicled) (hon : m.OnTape) : m.step.1.Chronicled := by
  cases hrule : m.rule? with
  | some r =>
    have hstate : m.state ≠ haltState := (rule?_eq_some_iff.1 hrule).2.1
    obtain ⟨k, hentries, -⟩ := m.history.entries_push m.snapshot
    have hnow : m.snapshot.steps = m.steps + 1 - 1 := (Int.add_sub_cancel m.steps 1).symm
    rw [step_of_rule hon hrule]
    constructor
    · rw [applied_history, History.bounds_push]
      exact History.size_push_le h.size_le
    · rw [applied_steps, applied_history, hentries]
      exact ⟨hnow, hstate, h.countsDown.take k⟩
  | none =>
    obtain ⟨message, lastStep, hstep⟩ := step_of_no_rule hrule
    rw [hstep]
    exact h.same rfl rfl

theorem Chronicled.undo? (h : m.Chronicled) (hundo : m.undo? = some n) : n.Chronicled := by
  obtain ⟨⟨s, rest⟩, hpop, rfl⟩ := Option.map_eq_some_iff.1 hundo
  obtain ⟨hentries, hbounds⟩ := History.pop?_eq_some_iff.1 hpop
  have hsize := h.size_le
  have hdown := h.countsDown
  rw [History.size, hentries, List.length_cons] at hsize
  rw [hentries] at hdown
  constructor
  · show rest.entries.length ≤ rest.bounds.cap
    rw [hbounds]
    omega
  · exact hdown.2.2

theorem Chronicled.undone (h : m.Chronicled) (hundo : m.undo? = some n) :
    n.halted = false ∧ n.state ≠ haltState ∧ n.steps = m.steps - 1 := by
  obtain ⟨⟨s, rest⟩, hpop, rfl⟩ := Option.map_eq_some_iff.1 hundo
  obtain ⟨hentries, -⟩ := History.pop?_eq_some_iff.1 hpop
  have hdown := h.countsDown
  rw [hentries] at hdown
  exact ⟨rfl, hdown.2.1, hdown.1⟩

theorem Chronicled.countsDown_toList (h : m.Chronicled) :
    CountsDown m.steps m.history.toList.reverse := by
  rw [History.toList, List.reverse_reverse]
  exact h.countsDown

theorem Chronicled.length_le (h : m.Chronicled) :
    m.history.toList.length ≤ m.history.bounds.cap ∧ m.history.toList.length ≤ m.steps := by
  rw [History.toList, List.length_reverse]
  exact ⟨h.size_le, h.countsDown.length_le⟩

theorem Chronicled.steps_getElem (h : m.Chronicled) (i : Nat) (hi : i < m.history.toList.length) :
    m.history.toList[i].steps = m.steps - m.history.toList.length + i := by
  -- the snapshot at `i` is as many places away from the newest as there are behind it
  have hplace : m.history.toList.length - 1 - i < m.history.toList.reverse.length := by
    rw [List.length_reverse]
    omega
  have hentry : m.history.toList.reverse[m.history.toList.length - 1 - i] =
      m.history.toList[i] := by
    rw [List.getElem_reverse]
    congr 1
    omega
  have hsteps := h.countsDown_toList.steps_getElem _ hplace
  rw [hentry] at hsteps
  omega

theorem Chronicled.state_getElem (h : m.Chronicled) (i : Nat) (hi : i < m.history.toList.length) :
    m.history.toList[i].state ≠ haltState :=
  h.countsDown_toList.state_ne _ (List.mem_reverse.2 (List.getElem_mem hi))

theorem Chronicled.steps_recent (h : m.Chronicled) (count : Nat) :
    (m.history.recent count).map Snapshot.steps =
      (List.range (min count m.history.toList.length)).map fun i : Nat => m.steps - 1 - i := by
  rw [History.recent_natCast, (h.countsDown_toList.take count).map_steps, List.length_take,
    List.length_reverse]

end Machine

namespace Work

variable {w v : Work} {kept : Session → Prop}

theorem chronicled_judged {c : Catalog} {index : Int} {m : Machine} (h : m.Chronicled) :
    (judged c index m).Chronicled := by
  obtain ⟨_, _, hjudged⟩ := judged_cases c index m
  rw [hjudged]
  exact h.same rfl rfl

theorem chronicled_restored (h : w.machine.Chronicled) (s : Session) :
    (w.restored s).machine.Chronicled := by
  unfold Work.restored
  cases s.challenge with
  | none => exact h.overlay s
  | some index =>
    dsimp only
    cases w.catalog.get index with
    | error f => exact h
    | ok c => exact (w.machine.chronicled_setUp c).overlay s

theorem chronicled_becomes (h : w.machine.Chronicled) (hon : w.machine.OnTape)
    (hv : Becomes kept w v) : v.machine.Chronicled := by
  cases hv with
  | same => exact h
  | advanced => exact chronicled_judged (h.step hon)
  | undone hundo => exact h.undo? hundo
  | loaded cells head => exact w.machine.chronicled_load cells head
  | opened _ _ _ => exact w.machine.chronicled_setUp _
  | ruled _ => exact h.same rfl rfl
  | written _ _ => exact h.same rfl rfl
  | extended => exact h.same rfl rfl
  | shortened _ => exact h.same rfl rfl
  | @restored s _ => exact chronicled_restored h s

end Work

end TapeLab
