import TapeLab.CommandLine
import TapeLab.Proofs.Settings.Loading

/-!
Settings that pass their checks again. Whatever file they come from, their delay for saving is not
negative; so nothing is refused when a request puts its own numbers in, if those are in range.
-/

namespace TapeLab

theorem Tree.isFile_empty (p : Path) : empty.isFile p = false := by
  have hread : ∃ e, empty.read p = .error e := by
    unfold read
    cases empty.resolve p with
    | error e => exact ⟨e, rfl⟩
    | ok place =>
      have hnode : empty.node? place = none ∨ empty.node? place = some .folder := by
        unfold node?
        split
        · exact .inr rfl
        · exact .inl rfl
      rcases hnode with hnode | hnode <;> simp only [bind, Except.bind, hnode] <;> exact ⟨_, rfl⟩
  obtain ⟨e, he⟩ := hread
  rw [isFile, he]
  rfl

namespace Settings

variable {s : Settings} {tree : Tree} {path : Option Path}

theorem saveDelay_of_load (h : load tree path = .ok s) : s.saveDelay.isNegative = false :=
  (inRange_of_load h).delay

theorem override_eq_ok (hdelay : s.saveDelay.isNegative = false) {r : CommandLine.RunRequest}
    (hspeed : 0 ≤ r.speed) (hmax : ∀ n, r.maxSteps = some n → 1 ≤ n) :
    ∃ s', s.override r.overrides = .ok s' ∧ s'.speed = r.speed.toNat ∧
      s'.maxSteps = (r.maxSteps.getD s.maxSteps).toNat := by
  obtain ⟨d, hd⟩ : ∃ d, d = { s.draft with
    speed := r.speed, maxSteps := r.maxSteps.getD s.maxSteps } := ⟨_, rfl⟩
  have hfold : r.overrides.foldlM (fun (d : SettingsDraft) v => d.setInt v.1 v.2) s.draft =
      .ok d := by
    rw [hd]
    unfold CommandLine.RunRequest.overrides
    cases r.maxSteps <;> rfl
  have hpos : 1 ≤ d.maxSteps := by
    have := s.maxSteps_pos
    rw [hd]
    cases hr : r.maxSteps with
    | none => simp only [Option.getD_none]; omega
    | some n => exact hmax n hr
  have hreal : d.saveDelay = .real s.saveDelay := by rw [hd]; rfl
  have hrange : d.InRange := by
    refine ⟨?_, ?_, ?_, hreal ▸ hdelay, hpos⟩ <;> rw [hd]
    · exact hspeed
    · exact Int.natCast_pos.2 s.bounds.drop_pos
    · exact Int.ofNat_le.2 s.bounds.drop_le_cap
  obtain ⟨s', hs', hdraft⟩ := SettingsDraft.check_of_inRange hreal hrange
  have hspeed' : (s'.speed : Int) = r.speed :=
    (congrArg SettingsDraft.speed hdraft).trans (congrArg SettingsDraft.speed hd)
  have hmax' : (s'.maxSteps : Int) = r.maxSteps.getD s.maxSteps :=
    (congrArg SettingsDraft.maxSteps hdraft).trans (congrArg SettingsDraft.maxSteps hd)
  unfold override
  rw [hfold]
  exact ⟨s', hs', by omega, by omega⟩

end Settings

end TapeLab
