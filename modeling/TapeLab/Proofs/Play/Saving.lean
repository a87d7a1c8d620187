import TapeLab.CommandLine
import TapeLab.Proofs.Play
import TapeLab.Proofs.Session.Saved

/-!
The file of a session that is played. Playing begins with the saved session, if there is one, and
ends with a flush. So in the end the file holds the session that playing leaves, unless nothing has
been handed to the keeper at all; then the disk is as it was.
-/

namespace TapeLab

namespace Play

open Workbench

section Begin

variable {settings : Settings} {fresh : Bool} {path : Path} {disk : Tree} {d e : Desk}
  {host : Host}

theorem keeper_of_new {c : Catalog} {k : Keeper} {loop : Bool}
    (h : Desk.new settings c (some k) disk loop = .ok d) : d.keeper = some k := by
  unfold Desk.new at h
  split at h
  · cases h
  · split at h
    · cases h
    · cases h
      rfl

theorem idle_of_new {c : Catalog} {keeper : Option Keeper} {loop : Bool}
    (h : Desk.new settings c keeper disk loop = .ok d) : d.running = false := by
  unfold Desk.new at h
  split at h
  · cases h
  · split at h
    · cases h
    · cases h
      rfl

theorem rest_new (h : Desk.new settings .standard (some (Keeper.new path (CommandLine.keeperDelay
      settings.saveDelay) Catalog.standard.challenges.length)) disk true = .ok d) :
    AtRest (Governed .standard) (.new host d) := by
  refine ⟨?_, idle_of_new h⟩
  have harises : Arises .standard (Work.Fits .standard) (fun _ _ => False) (.new host d) :=
    @Arises.new .standard _ _ settings (some (path, CommandLine.keeperDelay settings.saveDelay,
      Catalog.standard.challenges.length)) disk true d host h
  exact harises.governed fun _ _ hasked => hasked

theorem resume_cases {k : Keeper} (hk : d.keeper = some k) (h : CommandLine.resume d = .ok e) :
    ∃ j, e = { d with journal := j } ∨ ∃ s, (k.load d.disk).1 = some s ∧
      (Desk.restore { d with journal := j } s).answer = .ok () ∧
        e = (Desk.restore { d with journal := j } s).desk := by
  obtain ⟨j, hj⟩ := Desk.logAll_eq (k.load d.disk).2 d
  have hload : d.loadSaved = (d.logAll (k.load d.disk).2, (k.load d.disk).1) := by
    rw [Desk.loadSaved, hk]
  rw [hj] at hload
  unfold CommandLine.resume at h
  rw [hload] at h
  refine ⟨j, ?_⟩
  cases hsaved : (k.load d.disk).1 with
  | none =>
    rw [hsaved] at h
    cases h
    exact .inl rfl
  | some s =>
    rw [hsaved] at h
    dsimp only at h
    cases hanswer : (Desk.restore { d with journal := j } s).answer with
    | error f =>
      rw [hanswer] at h
      cases h
    | ok u =>
      rw [hanswer] at h
      cases h
      exact .inr ⟨s, rfl, hanswer, rfl⟩

theorem rest_resume {k : Keeper} (hk : d.keeper = some k)
    (hchallenges : k.challenges = Catalog.standard.challenges.length)
    (hrest : AtRest (Governed .standard) (.new host d)) (h : CommandLine.resume d = .ok e) :
    AtRest (Governed .standard) (.new host e) := by
  obtain ⟨j, rfl | ⟨s, hsaved, hanswer, rfl⟩⟩ := resume_cases hk h
  · exact ⟨hrest.1.note j, hrest.2⟩
  · obtain ⟨json, hjson⟩ := Keeper.ofJson_of_load hsaved
    rw [hchallenges] at hjson
    have hfits : Restores (Work.Fits .standard) (.restore s) := by
      rintro s ⟨⟩
      exact Work.fits_of_ofJson hjson
    have hrestored := (hrest.1.note j).perform hfits
    have hperform : ((Workbench.new host { d with journal := j }).perform (.restore s)).1 =
        .new host (Desk.restore { d with journal := j } s).desk := by
      obtain ⟨index, m, j', c, -, hrestore⟩ := Desk.restore_eq_of_ok hanswer
      rw [perform_fst]
      show (tell (.new host (Desk.restore { d with journal := j } s).desk)
        (Desk.restore { d with journal := j } s).change).1 = _
      rw [hrestore]
      rfl
    exact ⟨hperform ▸ hrestored, (Operation.restore s).running_of_idle nofun hrest.2⟩

theorem playDesk_cases (h : CommandLine.playDesk settings fresh path disk = .ok d) :
    ∃ d₀, Desk.new settings .standard (some (Keeper.new path (CommandLine.keeperDelay
        settings.saveDelay) Catalog.standard.challenges.length)) disk true = .ok d₀ ∧
      (d = d₀ ∨ CommandLine.resume d₀ = .ok d) := by
  unfold CommandLine.playDesk at h
  cases hnew : Desk.new settings .standard (some (Keeper.new path (CommandLine.keeperDelay
      settings.saveDelay) Catalog.standard.challenges.length)) disk true with
  | error f =>
    simp only [hnew] at h
    cases h
  | ok d₀ =>
    simp only [hnew] at h
    cases fresh with
    | true => exact ⟨d₀, rfl, .inl (Except.ok.inj h).symm⟩
    | false => exact ⟨d₀, rfl, .inr h⟩

theorem rest_playDesk (h : CommandLine.playDesk settings fresh path disk = .ok d) (host : Host) :
    AtRest (Governed .standard) (.new host d) := by
  obtain ⟨d₀, hnew, rfl | hresume⟩ := playDesk_cases h
  · exact rest_new hnew
  · exact rest_resume (keeper_of_new hnew) rfl (rest_new hnew) hresume

theorem keeper_resume {k : Keeper} (hk : d.keeper = some k) (h : CommandLine.resume d = .ok e) :
    e.keeper = some k := by
  obtain ⟨j, rfl | ⟨s, -, hanswer, rfl⟩⟩ := resume_cases hk h
  · exact hk
  · obtain ⟨index, m, j', c, -, hrestore⟩ := Desk.restore_eq_of_ok hanswer
    rw [hrestore]
    exact hk

theorem keeper_playDesk (h : CommandLine.playDesk settings fresh path disk = .ok d) :
    d.keeper = some (Keeper.new path (CommandLine.keeperDelay settings.saveDelay)
      Catalog.standard.challenges.length) := by
  obtain ⟨d₀, hnew, rfl | hresume⟩ := playDesk_cases h
  · exact keeper_of_new hnew
  · exact keeper_resume (keeper_of_new hnew) hresume

theorem flush_of_new {w : Workbench} {delay : Time} {challenges : Int}
    (hk : w.desk.keeper = some (Keeper.new path delay challenges)) : w.flush = w := by
  obtain ⟨desk, ls, host, flag⟩ := w
  obtain ⟨catalog, index, machine, pacer, keeper, agenda, disk, journal, loop⟩ := desk
  obtain rfl : keeper = _ := hk
  rfl

end Begin

end Play

end TapeLab
