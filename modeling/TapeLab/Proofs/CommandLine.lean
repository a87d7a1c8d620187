import TapeLab.Proofs.Command
import TapeLab.Proofs.Desk.Speed
import TapeLab.Proofs.Settings
import TapeLab.Proofs.Trial.Verdict

/-!
The exit code of a run from the command line is the verdict of the textbooks' machine: on the table
and the tape that are asked for, within the steps that are allowed.
-/

namespace TapeLab.CommandLine

open Textbook

namespace RunRequest

def table (r : RunRequest) (c : Challenge) (disk : Tree) : Except RuleFileError RuleTable :=
  match r.rules with
  | none => .ok ⟨c.rules⟩
  | some path => RuleTable.load disk path

def start (r : RunRequest) (c : Challenge) : Config :=
  .start ((r.tape.map readCells).getD c.cells) (r.head.getD c.head)

def limit (r : RunRequest) (settings : Settings) : Nat :=
  (r.maxSteps.getD settings.maxSteps).toNat

def placed (r : RunRequest) (c : Challenge) (t : RuleTable) (m : Machine) : Machine :=
  { m.load ((r.tape.map readCells).getD c.cells) (r.head.getD c.head) with rules := t }

theorem config_placed (r : RunRequest) (c : Challenge) (t : RuleTable) (m : Machine) :
    (r.placed c t m).config = r.start c := m.config_load _ _

def bench (host : Host) (delay : Int) (disk : Tree) (index : Int) (m : Machine)
    (journal : Journal) : Workbench :=
  .new host {
    catalog := .standard
    index := index
    machine := m
    pacer := .new delay
    keeper := none
    agenda := .empty
    disk := disk
    journal := journal
    loop := true }

variable {r : RunRequest} {c : Challenge} {t : RuleTable} {host : Host} {delay index : Int}
  {disk : Tree}
  {m : Machine} {journal : Journal} {i : Nat}

theorem new_eq_bench (settings : Settings) (disk : Tree) (host : Host)
    (hfinite : (secondsOf settings.speed).isInfinite = false) :
    ∃ d m, Desk.new settings .standard none disk true = .ok d ∧
      Workbench.new host d = bench host settings.speed disk 0 m [] := by
  unfold Desk.new
  simp only [Catalog.standard, hfinite, Bool.false_eq_true, if_false]
  exact ⟨_, _, rfl, rfl⟩

theorem lt_of_getElem?_eq_some (hc : Catalog.standard.challenges[i]? = some c) :
    i < Catalog.standard.challenges.length := by
  obtain ⟨hi, -⟩ := List.getElem?_eq_some_iff.1 hc
  exact hi

theorem get_eq_ok_of_getElem? (hc : Catalog.standard.challenges[i]? = some c) :
    Catalog.standard.get i = .ok c := by
  have hi := lt_of_getElem?_eq_some hc
  have hposition : position? Catalog.standard.challenges.length i = some i :=
    if_pos ⟨Int.natCast_nonneg i, Int.ofNat_lt.2 hi⟩
  simp only [Catalog.get, hposition, Option.bind_some, hc]

theorem pick_eq_ok (hc : Catalog.standard.challenges[i]? = some c) : pick i = .ok c := by
  simp only [pick, Int.natCast_nonneg, if_true, Int.toNat_natCast, hc]

theorem bench_loadChallenge (host : Host) (delay index : Int) (disk : Tree) (m : Machine)
    (journal : Journal) (hc : Catalog.standard.challenges[i]? = some c) :
    ∃ j, ((bench host delay disk index m journal).perform (.loadChallenge i)).1 =
      bench host delay disk i (Desk.setUp m c) j := by
  have hload := Desk.loadChallenge_eq (d := (bench host delay disk index m journal).desk)
    (Int.natCast_nonneg i) (Int.ofNat_lt.2 (lt_of_getElem?_eq_some hc)) (get_eq_ok_of_getElem? hc)
  refine ⟨.logged (.loaded c.name) :: journal, ?_⟩
  unfold Workbench.perform Operation.apply
  dsimp only
  rw [hload]
  rfl

theorem placeRules_bench (htable : r.table c disk = .ok t) :
    r.placeRules (bench host delay disk index (Desk.setUp m c) journal) =
      .ok (bench host delay disk index { m.load c.cells c.head with rules := t } journal) := by
  unfold table at htable
  unfold placeRules
  cases hr : r.rules with
  | none =>
    rw [hr] at htable
    cases htable
    rfl
  | some path =>
    rw [hr] at htable
    have hdisk : (bench host delay disk index (Desk.setUp m c) journal).desk.disk = disk := rfl
    dsimp only at htable ⊢
    rw [hdisk, htable]
    rfl

theorem placeTape_bench :
    r.placeTape c (bench host delay disk index { m.load c.cells c.head with rules := t } journal) =
      bench host delay disk index (r.placed c t m) journal := by
  unfold placeTape placed
  split
  · rfl
  · next hnone =>
    simp only [Bool.or_eq_true, not_or, Option.not_isSome_iff_eq_none] at hnone
    rw [hnone.1, hnone.2]
    rfl

theorem andThen_of_showed {w : Workbench} {shown : Command.Result} (h : Command.Showed w shown)
    (next : Workbench → Result) :
    ∃ j, Result.andThen shown next = next { w with desk := { w.desk with journal := j } } := by
  obtain ⟨v, fault⟩ := shown
  obtain ⟨rfl, j, rfl⟩ := h
  exact ⟨j, rfl⟩

theorem bench_poised (hc : Catalog.standard.challenges[i]? = some c) :
    Trial.Poised (bench host delay disk i (r.placed c t m) journal).desk.work where
  bounded := by
    obtain ⟨hlt, -⟩ := List.getElem?_eq_some_iff.1 hc
    exact ⟨⟨Int.natCast_nonneg i, Int.ofNat_lt.2 hlt⟩, Tape.clamp_onTape _ _,
      fun s hs => absurd hs List.not_mem_nil⟩
  halted := rfl
  state := by
    show initialState ≠ haltState
    decide
  steps := rfl

theorem bench_timely : (bench host delay disk index m journal).desk.gears.Timely :=
  ⟨fun _ ht => absurd ht List.not_mem_nil, fun _ hk => by cases hk⟩

theorem bench_ready (hc : Catalog.standard.challenges[i]? = some c)
    (hshows : ∀ o, host.Takes o) (hdepth : 0 < host.depth) {maxSteps : Nat} (hmax : 0 < maxSteps)
    (trace : Bool) :
    Trial.Ready True maxSteps trace (bench host delay disk i (r.placed c t m) journal) where
  listeners := rfl
  inStep := Desk.inStep_of_idle
    ⟨⟨Agenda.numbered_empty, Agenda.held_none _ _, fun _ => Agenda.sole_empty _⟩,
      Agenda.sole_empty _, Pacer.coherent_new delay⟩ rfl rfl
  bounded := (bench_poised (t := t) (m := m) hc).bounded
  loop := rfl
  idle := rfl
  halted := rfl
  steps := Int.ofNat_lt.2 hmax
  host := ⟨hdepth, fun _ _ _ _ => hshows _⟩

theorem report_code {w : Workbench} (hshows : Command.Open w) (c : Challenge) (maxSteps : Nat)
    (limited : Bool) (hpos : 0 ≤ w.desk.pacer.delay) (hle : w.desk.pacer.delay ≤ 10 ^ 303) :
    (report c maxSteps limited w).exit.code =
      some (if !limited && (w.desk.machine.won || c.sandbox) then 0 else 1) := by
  have hlimit : Command.Showed w (if limited then
      Command.printLine s!"[warning]The machine did not halt within {maxSteps} steps." w
    else Command.silently w) := by
    split
    · exact hshows.print _
    · exact Command.showed_silently w
  unfold report
  dsimp only
  obtain ⟨j, hj⟩ := andThen_of_showed hlimit _
  obtain ⟨line, hline⟩ :=
    Desk.statusLine_eq_ok (d := { w.desk with journal := j }) hpos hle
  rw [hj]
  dsimp only
  rw [hline]
  dsimp only
  obtain ⟨k, hk⟩ := andThen_of_showed ((hshows.withDesk { w.desk with journal := j }).print _) _
  rw [hk]
  dsimp only
  cases !limited && (w.desk.machine.won || c.sandbox) <;> rfl

theorem perform_bench (m : Machine) (hshows : ∀ o, host.Takes o) (hdepth : 0 < host.depth)
    (hchallenge : r.challenge = i)
    (hc : Catalog.standard.challenges[i]? = some c) (htable : r.table c disk = .ok t)
    (hpos : 0 ≤ delay) (hle : delay ≤ 10 ^ 300) {maxSteps : Nat} (hmax : 0 < maxSteps) :
    ∃ n, Trial.Verdict c t (r.start c) maxSteps n ∧
      (r.perform maxSteps (bench host delay disk 0 m [])).exit.code =
        some (if n.halted && (n.won || c.sandbox) then 0 else 1) := by
  obtain ⟨j, hload⟩ := bench_loadChallenge host delay 0 disk m [] hc
  have hopen (k : Journal) : Command.Open (bench host delay disk i (r.placed c t m) k) := hshows
  obtain ⟨k, hprint⟩ := andThen_of_showed ((hopen j).print (r.headerLines c _)) fun w =>
    conclude c maxSteps (Trial.run maxSteps r.trace w)
  obtain ⟨w, hw⟩ : ∃ w, w = bench host delay disk i (r.placed c t m) k := ⟨_, rfl⟩
  obtain ⟨e, answer, hrun⟩ : ∃ e answer, Trial.run maxSteps r.trace w = (e, answer) :=
    ⟨_, _, rfl⟩
  have hstart : Trial.Poised w.desk.work := hw ▸ bench_poised hc
  obtain ⟨n, hn⟩ : ∃ n, w.desk.work.Stops maxSteps n :=
    Work.exists_stops hstart.bounded hstart.steps
  obtain ⟨hended, hanswer⟩ := Trial.run_ended
    (hw ▸ bench_ready hc hshows hdepth hmax r.trace) (hw ▸ bench_timely) hstart.steps hn
  rw [hrun] at hended hanswer
  have hget : w.desk.work.catalog.get w.desk.work.index = .ok c := by
    rw [hw]
    exact get_eq_ok_of_getElem? hc
  have hverdict := hended.verdict hstart (by rw [hw]; rfl) hget
  have hrules : w.desk.work.machine.rules = t := by rw [hw]; rfl
  have hconfig : w.desk.work.machine.config = r.start c := by rw [hw]; exact r.config_placed c t m
  rw [hrules, hconfig] at hverdict
  have hdelay : e.desk.pacer.delay = delay := by rw [hended.delay, hw]; rfl
  have hhalted : answer = .over (!e.desk.machine.halted) := by
    rw [show e.desk.machine = e.desk.work.machine from rfl, hended.work]
    exact hanswer
  have hperform : r.perform maxSteps (bench host delay disk 0 m []) =
      report c maxSteps (!e.desk.machine.halted) e := by
    unfold perform
    rw [hchallenge, pick_eq_ok hc]
    dsimp only
    rw [hload, placeRules_bench htable]
    dsimp only
    rw [placeTape_bench]
    refine hprint.trans ?_
    show conclude c maxSteps
      (Trial.run maxSteps r.trace (bench host delay disk i (r.placed c t m) k)) = _
    rw [← hw, hrun, hhalted, conclude]
  have hshown : Command.Open e := fun o => by
    rw [Host.Takes, hended.host, hw]
    exact hshows o
  refine ⟨e.desk.machine, hverdict, ?_⟩
  rw [hperform, report_code hshown c maxSteps _ (by rwa [hdelay])
    (hdelay ▸ le_of_le_ten_pow hle), Bool.not_not]

end RunRequest

/-- Whatever challenge, table, tape, head, limit and delay a run is asked for with, the program
exits as the textbooks' machine decides. -/
theorem run_decided_by_textbook (env : Environment) (hshows : ∀ o, env.host.Takes o)
    (hdepth : 0 < env.host.depth) (invocation : Invocation) {settings : Settings}
    (hsettings : Settings.load env.disk invocation.config = .ok settings)
    (hcommand : invocation.command = .run) {r : RunRequest}
    (hrequest : Request.ofArgs .run invocation.args = .ok (.run r))
    {i : Nat} {c : Challenge} (hchallenge : r.challenge = i)
    (hc : Catalog.standard.challenges[i]? = some c)
    {t : RuleTable} (htable : r.table c env.disk = .ok t)
    (hspeed : 0 ≤ r.speed ∧ r.speed ≤ 10 ^ 300) (hmax : ∀ n, r.maxSteps = some n → 1 ≤ n) :
    ∃ result, invoke invocation env = .ended result ∧
      (∀ expected, c.expected = some expected →
        (result.exit.code = some 0 ↔
          ∃ d, Halts t (r.start c) (r.limit settings) d ∧ Shows d (written expected))) ∧
      (c.expected = none →
        (result.exit.code = some 0 ↔
          (∃ d, Halts t (r.start c) (r.limit settings) d) ∨
            GetsStuck t (r.start c) (r.limit settings))) ∧
      (result.exit.code = some 0 ∨ result.exit.code = some 1) := by
  obtain ⟨settings', hoverride, hspeed', hmax'⟩ :=
    Settings.override_eq_ok (Settings.saveDelay_of_load hsettings) hspeed.1 hmax
  have hdelay : (settings'.speed : Int) = r.speed := by
    rw [hspeed', Int.toNat_of_nonneg hspeed.1]
  obtain ⟨b, e, hseconds, -, -⟩ := secondsOf_eq_finite hspeed.1 hspeed.2
  obtain ⟨d, m, hnew, hbench⟩ := RunRequest.new_eq_bench settings' env.disk env.host
    (by rw [hdelay, hseconds]; rfl)
  obtain ⟨n, hverdict, hcode⟩ := RunRequest.perform_bench m hshows hdepth hchallenge hc htable
    (hdelay ▸ hspeed.1) (hdelay ▸ hspeed.2) settings'.maxSteps_pos
  have hlimit : settings'.maxSteps = r.limit settings := hmax'
  have hinvoke : invoke invocation env = .ended (run settings r env) := by
    simp only [invoke, hsettings, hcommand, hrequest]
    rfl
  have hrun : (run settings r env).exit.code =
      some (if n.halted && (n.won || c.sandbox) then 0 else 1) := by
    rw [← hcode, ← hbench]
    unfold run
    rw [hoverride]
    dsimp only
    rw [hnew]
  rw [hlimit] at hverdict
  refine ⟨_, hinvoke, fun expected hexpected => ?_, fun hsandbox => ?_, ?_⟩
  · rw [← hverdict.met_iff hexpected, hrun]
    simp [Challenge.sandbox, hexpected]
  · rw [← hverdict.halted_iff, hrun]
    simp [Challenge.sandbox, hsandbox]
  · rw [hrun]
    split
    · exact .inl rfl
    · exact .inr rfl

/-- The inverter needs every transition that it is allowed here. -/
theorem run_inverter_decided_by_textbook :
    ∃ result, invoke ⟨none, false, .run, ["--max-steps", "8"]⟩ ⟨.ofText "/", .empty, .plain⟩ =
        .ended result ∧
      (result.exit.code = some 0 ↔
        ∃ d, Halts ⟨inverterRules⟩ (.start ["1", "0", "1", "1", "0", "0", "1"] 0) 8 d ∧
          Shows d (written ["0", "1", "0", "0", "1", "1", "0"])) := by
  obtain ⟨result, hresult, hexpected, -, -⟩ := run_decided_by_textbook
    ⟨.ofText "/", .empty, .plain⟩ (fun _ => rfl) (by decide)
    ⟨none, false, .run, ["--max-steps", "8"]⟩
    (Settings.load_of_no_file (Tree.isFile_empty _)) rfl
    (r := ⟨0, none, none, none, 0, some 8, true⟩) (by decide +kernel)
    (i := 0) rfl (c := Catalog.standard.challenges[0]) rfl (t := ⟨inverterRules⟩) rfl
    ⟨Int.le_refl 0, Int.pow_nonneg (by decide)⟩ (by simp)
  exact ⟨result, hresult, hexpected _ rfl⟩

end TapeLab.CommandLine
