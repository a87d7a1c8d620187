import TapeLab.Proofs.Desk.Work
import TapeLab.Proofs.History
import TapeLab.Proofs.Session

/-!
Bounds of the work at a desk: there is a challenge with its number, and the head stands on the tape,
now and in every snapshot. Each way in which the work changes keeps that.
-/

namespace TapeLab

def Snapshot.OnTape (s : Snapshot) : Prop :=
  s.cells ≠ [] ∧ 0 ≤ s.head ∧ s.head < s.cells.length

def Session.Placeable (s : Session) : Prop := ∀ head, s.head = some head → 0 ≤ head

namespace Machine

variable {m n : Machine}

/-- The head is on the tape, and in all snapshots it was. -/
structure Bounded (m : Machine) : Prop where
  onTape : m.OnTape
  history : ∀ s ∈ m.history.entries, s.OnTape

theorem OnTape.snapshot (h : m.OnTape) : m.snapshot.OnTape :=
  ⟨m.tape.cells_ne_nil, h⟩

theorem Bounded.step (h : m.Bounded) : m.step.1.Bounded := by
  cases hrule : m.rule? with
  | some r =>
    rw [step_of_rule h.onTape hrule]
    refine ⟨applied_onTape h.onTape, fun s hs => ?_⟩
    rw [applied_history] at hs
    rcases History.mem_push hs with rfl | hs
    · exact h.onTape.snapshot
    · exact h.history s hs
  | none =>
    obtain ⟨message, lastStep, hstep⟩ := step_of_no_rule hrule
    rw [hstep]
    exact ⟨h.onTape, h.history⟩

theorem Bounded.undo? (h : m.Bounded) (hundo : m.undo? = some n) : n.Bounded := by
  obtain ⟨⟨s, rest⟩, hpop, rfl⟩ := Option.map_eq_some_iff.1 hundo
  obtain ⟨hentries, -⟩ := History.pop?_eq_some_iff.1 hpop
  have hs : s.OnTape := h.history s (by simp [hentries])
  have hcells : (Tape.ofCells s.cells).size = s.cells.length :=
    congrArg List.length (Tape.cells_ofCells hs.1)
  refine ⟨⟨hs.2.1, ?_⟩, fun t ht => h.history t (by simp [hentries, ht])⟩
  show s.head < ((Tape.ofCells s.cells).size : Int)
  rw [hcells]
  exact hs.2.2

theorem bounded_load (m : Machine) (cells : List Symbol) (head : Int) :
    (m.load cells head).Bounded :=
  ⟨Tape.clamp_onTape _ head, fun _ hs => absurd hs List.not_mem_nil⟩

theorem bounded_start (t : RuleTable) (tape : Tape) (head : Int) (state : String) (steps : Int)
    (b : History.Bounds) : (start t tape head state steps b).Bounded :=
  ⟨Tape.clamp_onTape _ head, fun _ hs => absurd hs List.not_mem_nil⟩

theorem size_of_dropLast? {t u : Tape} (h : t.dropLast? = some u) : u.size + 1 = t.size := by
  unfold Tape.dropLast? at h
  split at h
  · next hlt =>
    obtain rfl := Option.some.inj h
    show t.cells.dropLast.length + 1 = t.cells.length
    have hlt' : 1 < t.cells.length := hlt
    rw [List.length_dropLast]
    omega
  · cases h

theorem Bounded.overlay (h : m.Bounded) {s : Session} (hs : s.Placeable) :
    (Desk.overlay m s).Bounded := by
  have hhead : 0 ≤ s.head.getD m.head := by
    cases hsome : s.head with
    | none => exact h.onTape.1
    | some head => exact hs head hsome
  have hsize := (Desk.overlay m s).tape.size_pos
  have hoverlay : (Desk.overlay m s).head =
      min (s.head.getD m.head) ((Desk.overlay m s).tape.size - 1) := by
    unfold Desk.overlay
    cases s.cells <;> cases s.rules <;> rfl
  refine ⟨⟨?_, ?_⟩, fun t ht => h.history t (Desk.overlay_history m s ▸ ht)⟩
  · rw [hoverlay]
    omega
  · rw [hoverlay]
    omega

end Machine

namespace Work

variable {w v : Work} {kept : Session → Prop}

structure Bounded (w : Work) : Prop where
  index : 0 ≤ w.index ∧ w.index < w.catalog.challenges.length
  machine : w.machine.Bounded

/-- Sessions whose challenge there is, and whose head is not negative. -/
structure Fits (c : Catalog) (s : Session) : Prop where
  challenge : ∀ index, s.challenge = some index → 0 ≤ index ∧ index < c.challenges.length
  head : ∀ head, s.head = some head → 0 ≤ head

theorem fits_of_ofJson {c : Catalog} {json : Json} {s : Session}
    (h : Session.ofJson json c.challenges.length = some s) : Fits c s where
  challenge _ hindex := Session.challenge_of_ofJson h hindex
  head _ hhead := (Session.head_of_ofJson h hhead).1

theorem Bounded.fits_session (h : w.Bounded) : Fits w.catalog w.session where
  challenge := by
    rintro _ ⟨⟩
    exact h.index
  head := by
    rintro _ ⟨⟩
    exact h.machine.onTape.1

theorem judged_bounded {c : Catalog} {index : Int} {m : Machine} (h : m.Bounded) :
    (judged c index m).Bounded := by
  obtain ⟨_, _, hjudged⟩ := judged_cases c index m
  rw [hjudged]
  exact ⟨h.onTape, h.history⟩

theorem machine_restored (h : w.machine.Bounded) {s : Session} (hs : s.Placeable) :
    (w.restored s).machine.Bounded := by
  unfold Work.restored
  cases s.challenge with
  | none => exact h.overlay hs
  | some index =>
    dsimp only
    cases w.catalog.get index with
    | error f => exact h
    | ok c =>
      have hload := Machine.bounded_load w.machine c.cells c.head
      have hsetUp : (Desk.setUp w.machine c).Bounded := ⟨hload.onTape, hload.history⟩
      exact hsetUp.overlay hs

theorem machine_becomes (h : w.machine.Bounded) (hkept : ∀ s, kept s → s.Placeable)
    (hv : Becomes kept w v) : v.machine.Bounded := by
  have hon := h.onTape
  have hload := Machine.bounded_load w.machine
  cases hv with
  | same => exact h
  | advanced => exact judged_bounded h.step
  | undone hundo => exact h.undo? hundo
  | loaded cells head => exact hload cells head
  | @opened _ c => exact ⟨(hload c.cells c.head).onTape, (hload c.cells c.head).history⟩
  | ruled t => exact ⟨hon, h.history⟩
  | @written i s hi =>
    refine ⟨⟨hon.1, ?_⟩, h.history⟩
    rw [Tape.size_set]
    exact hon.2
  | extended =>
    refine ⟨⟨hon.1, ?_⟩, h.history⟩
    have hlt := hon.2
    show w.machine.head < (w.machine.tape.append.size : Int)
    rw [Tape.size_append]
    omega
  | @shortened t ht =>
    have hsize := Machine.size_of_dropLast? ht
    have hpos := t.size_pos
    have hhead := hon.1
    refine ⟨⟨?_, ?_⟩, h.history⟩
    · show 0 ≤ min w.machine.head (t.size - 1)
      omega
    · show min w.machine.head (t.size - 1) < t.size
      omega
  | restored hs => exact machine_restored h (hkept _ hs)

theorem index_becomes (h : 0 ≤ w.index ∧ w.index < w.catalog.challenges.length)
    (hkept : ∀ s, kept s → Fits w.catalog s) (hv : Becomes kept w v) :
    0 ≤ v.index ∧ v.index < v.catalog.challenges.length := by
  cases hv with
  | opened hpos hlt _ => exact ⟨hpos, hlt⟩
  | @restored s hs =>
    have hindex := (hkept s hs).challenge
    unfold Work.restored
    cases hchallenge : s.challenge with
    | none => exact h
    | some index =>
      dsimp only
      split
      · exact hindex index hchallenge
      · exact hindex index hchallenge
  | _ => exact h

theorem Bounded.becomes (h : w.Bounded) (hkept : ∀ s, kept s → Fits w.catalog s)
    (hv : Becomes kept w v) : v.Bounded where
  index := index_becomes h.index hkept hv
  machine := machine_becomes h.machine (fun s hs => (hkept s hs).head) hv

end Work

end TapeLab
