import TapeLab.Proofs.Desk.Report

/-!
Making a step again. Whoever goes back over a step comes to a machine that steps just as the one
before did, and comes to the same history: however full this was, the first push has left room for
the second. That takes no more than a history that keeps its bounds, and a machine that has not won
before it has halted; and whatever becomes of a machine leaves it so.
-/

namespace TapeLab

namespace Machine

variable {m n : Machine} {r : Rule}

theorem step_of_write {tape : Tape} (hhalted : m.halted = false) (hstate : m.state ≠ haltState)
    (hlookup : m.rules.lookup m.state m.symbol = some r)
    (hwrite : m.tape.write m.head r.write = .ok tape) :
    m.step = (moveOn { m.unmarked with history := m.history.push m.snapshot } r tape,
      .ok (r.next != haltState)) := by
  simp only [step, unmarked_halted, hhalted, unmarked_state, hstate, unmarked_rules,
    unmarked_symbol, hlookup, unmarked_tape, unmarked_head, hwrite, Bool.false_eq_true, if_false]
  rfl

theorem step_of_active (h : m.step.1.active = some r) :
    m.halted = false ∧ m.state ≠ haltState ∧ m.rules.lookup m.state m.symbol = some r ∧
      ∃ tape, m.tape.write m.head r.write = .ok tape := by
  unfold step at h
  dsimp only at h
  split at h
  · cases h
  · next hhalted =>
    split at h
    · cases h
    · next hstate =>
      split at h
      · cases h
      · next s hlookup =>
        split at h
        · cases h
        · next tape hwrite =>
          obtain rfl := Option.some.inj h
          exact ⟨by simpa using hhalted, hstate, hlookup, tape, hwrite⟩

/-- There is room for what a step will push, and who has not halted has not won. -/
structure Replayable (m : Machine) : Prop where
  size_le : m.history.size ≤ m.history.bounds.cap
  won : m.won = true → m.halted = true

def replayed (m : Machine) (past : History Snapshot) : Machine :=
  { m.unmarked with history := past, message := "", lastStep := "" }

/-- Going back over a step, whatever the verdict on it was, leads to where the step can be made
again. -/
theorem Replayable.step_again (h : m.Replayable) (hactive : m.step.1.active = some r) (won : Bool)
    (message : String) :
    ∃ past, past.push m.snapshot = m.history.push m.snapshot ∧
      { m.step.1 with won := won, message := message }.undo? = some (m.replayed past) ∧
      (m.replayed past).step = m.step := by
  obtain ⟨hhalted, hstate, hlookup, tape, hwrite⟩ := step_of_active hactive
  have hwon : m.won = false := by
    cases hwon : m.won with
    | false => rfl
    | true => cases (h.won hwon).symm.trans hhalted
  have hstep := step_of_write hhalted hstate hlookup hwrite
  obtain ⟨k, hentries, -⟩ := m.history.entries_push m.snapshot
  obtain ⟨past, hpast⟩ :
      ∃ past, past = { m.history.push m.snapshot with entries := m.history.entries.take k } :=
    ⟨_, rfl⟩
  have hpop : (m.history.push m.snapshot).pop? = some (m.snapshot, past) :=
    History.pop?_eq_some_iff.2 ⟨by rw [hpast]; exact hentries, by rw [hpast]⟩
  have hpush : past.push m.snapshot = m.history.push m.snapshot := by
    rw [hpast]
    exact History.push_push h.size_le hentries
  refine ⟨past, hpush, ?_, ?_⟩
  · rw [hstep, undo?]
    show ((m.history.push m.snapshot).pop?).map _ = _
    rw [hpop]
    simp only [Option.map_some, moveOn, snapshot, Tape.ofCells_cells, replayed, unmarked, hhalted,
      hwon]
  · have hlookup' : (m.replayed past).rules.lookup (m.replayed past).state
        (m.replayed past).symbol = some r := hlookup
    have hwrite' : (m.replayed past).tape.write (m.replayed past).head r.write = .ok tape := hwrite
    have hsnapshot : (m.replayed past).snapshot = m.snapshot := rfl
    rw [step_of_write (m := m.replayed past) hhalted hstate hlookup' hwrite', hstep, hsnapshot,
      show (m.replayed past).history = past from rfl, hpush]
    rfl

theorem history_step (m : Machine) :
    m.step.1.history = m.history ∨ m.step.1.history = m.history.push m.snapshot := by
  unfold step
  dsimp only
  split
  · exact .inl rfl
  · split
    · exact .inl rfl
    · split
      · exact .inl rfl
      · split <;> exact .inr rfl

theorem won_step (m : Machine) : m.step.1.won = m.won := by
  unfold step
  dsimp only
  repeat' split
  all_goals rfl

theorem halted_step (h : m.halted = true) : m.step.1.halted = true := by
  simp only [step, unmarked_halted, h, if_true]

theorem halted_step_of_entry (hactive : m.step.1.active = some r) (hnext : r.next = haltState) :
    m.step.1.halted = true := by
  obtain ⟨hhalted, hstate, hlookup, tape, hwrite⟩ := step_of_active hactive
  rw [step_of_write hhalted hstate hlookup hwrite]
  simp [moveOn, hnext]

theorem Replayable.same (h : m.Replayable) (hhistory : n.history = m.history)
    (hwon : n.won = m.won) (hhalted : n.halted = m.halted) : n.Replayable where
  size_le := by rw [hhistory]; exact h.size_le
  won hn := hhalted.trans (h.won (hwon.symm.trans hn))

theorem Replayable.step (h : m.Replayable) : m.step.1.Replayable where
  size_le := by
    rcases m.history_step with hsame | hpushed
    · rw [hsame]
      exact h.size_le
    · rw [hpushed, History.bounds_push]
      exact History.size_push_le h.size_le
  won hwon := halted_step (h.won (m.won_step.symm.trans hwon))

theorem Replayable.undo? (h : m.Replayable) (hundo : m.undo? = some n) : n.Replayable := by
  obtain ⟨⟨s, rest⟩, hpop, rfl⟩ := Option.map_eq_some_iff.1 hundo
  obtain ⟨hentries, hbounds⟩ := History.pop?_eq_some_iff.1 hpop
  have hsize := h.size_le
  rw [History.size, hentries, List.length_cons] at hsize
  refine ⟨?_, fun hwon => by cases hwon⟩
  show rest.entries.length ≤ rest.bounds.cap
  rw [hbounds]
  omega

theorem replayable_start (t : RuleTable) (tape : Tape) (head : Int) (state : String) (steps : Int)
    (b : History.Bounds) : (start t tape head state steps b).Replayable :=
  ⟨Nat.zero_le _, fun hwon => by cases hwon⟩

theorem replayable_load (m : Machine) (cells : List Symbol) (head : Int) :
    (m.load cells head).Replayable :=
  ⟨Nat.zero_le _, fun hwon => by cases hwon⟩

theorem replayable_setUp (m : Machine) (c : Challenge) : (Desk.setUp m c).Replayable :=
  (m.replayable_load c.cells c.head).same rfl rfl rfl

theorem Replayable.overlay (h : m.Replayable) (s : Session) : (Desk.overlay m s).Replayable := by
  unfold Desk.overlay
  cases s.rules <;> cases s.cells <;> exact h.same rfl rfl rfl

end Machine

namespace Work

variable {u v : Work} {r : Rule} {kept : Session → Prop}

theorem replayable_advanced (h : u.machine.Replayable) : u.advanced.machine.Replayable := by
  have hstep := h.step
  unfold advanced judged
  cases hverdict : verdict? u.catalog u.index u.machine.step.1 with
  | none => exact hstep
  | some verdict =>
    have hentry : ∃ r, u.machine.step.1.active = some r ∧ r.next = haltState := by
      unfold verdict? at hverdict
      cases hactive : u.machine.step.1.active with
      | none => simp [hactive] at hverdict
      | some r =>
        by_cases hnext : r.next = haltState
        · exact ⟨r, rfl, hnext⟩
        · simp [hactive, hnext] at hverdict
    obtain ⟨r, hactive, hnext⟩ := hentry
    exact ⟨hstep.size_le, fun _ => Machine.halted_step_of_entry hactive hnext⟩

theorem replayable_restored (h : u.machine.Replayable) (s : Session) :
    (u.restored s).machine.Replayable := by
  unfold restored
  cases s.challenge with
  | none => exact h.overlay s
  | some index =>
    dsimp only
    cases u.catalog.get index with
    | error f => exact h
    | ok c => exact (u.machine.replayable_setUp c).overlay s

theorem replayable_becomes (h : u.machine.Replayable) (hv : Becomes kept u v) :
    v.machine.Replayable := by
  cases hv with
  | same => exact h
  | advanced => exact replayable_advanced h
  | undone hundo => exact h.undo? hundo
  | loaded cells head => exact u.machine.replayable_load cells head
  | opened _ _ _ => exact u.machine.replayable_setUp _
  | ruled _ => exact h.same rfl rfl rfl
  | written _ _ => exact h.same rfl rfl rfl
  | extended => exact h.same rfl rfl rfl
  | shortened _ => exact h.same rfl rfl rfl
  | @restored s _ => exact replayable_restored h s

theorem redone (h : u.machine.Replayable) (hactive : u.machine.step.1.active = some r) :
    ∃ m, u.advanced.machine.undo? = some m ∧ m.snapshot = u.machine.snapshot ∧
      m.step = u.machine.step ∧ answer { u with machine := m } = u.answer ∧
      change { u with machine := m } = u.change ∧ report { u with machine := m } = u.report := by
  obtain ⟨won, message, hjudged⟩ := judged_cases u.catalog u.index u.machine.step.1
  obtain ⟨past, -, hundo, hstep⟩ := h.step_again hactive won message
  have hanswer : answer { u with machine := u.machine.replayed past } = u.answer := by
    unfold answer
    rw [hstep]
  refine ⟨u.machine.replayed past, ?_, rfl, hstep, hanswer, ?_, ?_⟩
  · rw [advanced, hjudged]
    exact hundo
  · unfold change
    rw [hanswer, hstep]
  · unfold report
    rw [hstep]
    cases hmade : u.machine.step with
    | mk m more =>
      rw [hmade] at hactive
      cases more with
      | error e => rfl
      | ok more =>
        have hmark : m.active = some r := hactive
        simp only [Desk.stepLog, hmark]

theorem verdict_of_entry {challenge : Challenge} {verdict : Verdict}
    (hactive : u.machine.step.1.active = some r) (hnext : r.next = haltState)
    (hget : u.catalog.get u.index = .ok challenge)
    (hverify : verify u.machine.step.1.tape.cells challenge = some verdict) :
    .judged challenge.name verdict.won ∈ u.report ∧ u.advanced.machine.won = verdict.won ∧
      u.advanced.machine.message = verdict.message := by
  have hverdict : verdict? u.catalog u.index u.machine.step.1 = some verdict := by
    rw [verdict?_of_entry hactive hnext hget, hverify]
  refine ⟨?_, ?_, ?_⟩
  · unfold report
    cases hmade : u.machine.step with
    | mk m more =>
      rw [hmade] at hactive hverdict
      cases more with
      | error e =>
        have hmark : m.active = none := Machine.active_of_step_error hmade
        exact absurd (hmark.symm.trans hactive) (by simp)
      | ok more =>
        refine List.mem_append_right _ ?_
        simp only [verdictLog, hverdict, hget, List.mem_singleton]
  · simp only [advanced, judged, hverdict]
  · simp only [advanced, judged, hverdict]

end Work

end TapeLab
