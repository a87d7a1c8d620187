import TapeLab.Proofs.Desk.Saving
import TapeLab.Proofs.Workbench.Reachable

/-!
No change escapes the keeper. From a workbench on, operations are performed, timers fire, time
passes and the keeper is flushed; meanwhile the sessions are counted that are handed to the keeper
and that it writes. After each event the session is the one that was handed over last, and that one
is pending or in the file.
-/

namespace TapeLab

namespace Workbench

abbrev Silent (ls : List Listener) : Prop := Modest (fun _ => False) ls

def flush (w : Workbench) : Workbench := { w with desk := w.desk.flush.1 }

def tickHanded (w : Workbench) : List Session :=
  if w.desk.running then
    (Desk.advance { w.desk with pacer := w.desk.pacer.beginTick }).handed
  else []

/-- What can become of a workbench, with the sessions that have been handed to the keeper since, and
those that it has written, the newest first. -/
inductive Since (w₀ : Workbench) : List Session → List Session → Workbench → Prop
  | start : Since w₀ [] [] w₀
  | perform {handed written : List Session} {w : Workbench} {op : Operation} :
      Since w₀ handed written w → (∀ s, op ≠ .restore s) →
      Since w₀ ((op.apply w.desk).handed ++ handed) written (w.perform op).1
  | tick {handed written : List Session} {w : Workbench} {id : Nat} {a : Agenda Alarm} :
      Since w₀ handed written w → w.desk.agenda.alarms.Perm ((id, .tick) :: a.alarms) →
      a.next = w.desk.agenda.next →
      Since w₀ ((w.withAgenda a).tickHanded ++ handed) written ((w.withAgenda a).fire .tick)
  | answer {handed written : List Session} {w : Workbench} {id : Nat} {alarm : KeeperAlarm}
      {a : Agenda Alarm} :
      Since w₀ handed written w → w.desk.agenda.alarms.Perm ((id, .keeper alarm) :: a.alarms) →
      a.next = w.desk.agenda.next →
      Since w₀ handed (w.desk.writes alarm ++ written) ((w.withAgenda a).fire (.keeper alarm))
  | pass {handed written : List Session} {w : Workbench} {a : Agenda Alarm} :
      Since w₀ handed written w → w.desk.agenda.alarms.Perm a.alarms →
      w.desk.agenda.next ≤ a.next → Since w₀ handed written (w.withAgenda a)
  | flush {handed written : List Session} {w : Workbench} :
      Since w₀ handed written w → Since w₀ handed (w.desk.writes .save ++ written) w.flush
  | listen {handed written : List Session} {w : Workbench} {ls : List Listener} :
      Since w₀ handed written w → Silent ls → Since w₀ handed written { w with listeners := ls }
  | note {handed written : List Session} {w : Workbench} (j : Journal) :
      Since w₀ handed written w →
      Since w₀ handed written { w with desk := { w.desk with journal := j } }

variable {path : Path} {before : Tree} {first : Session} {handed written : List Session}
  {w w₀ : Workbench}

def Noted (u w : Workbench) : Prop :=
  ∃ j flag, w = { u with desk := { u.desk with journal := j }, flagged := flag }

theorem noted_serve {u : Workbench} (hw : u.Noted w) (depth : Nat) {r : Reaction}
    (hr : ∀ op, r ≠ .perform op) : u.Noted (serve depth r w).1 := by
  obtain ⟨j, flag, rfl⟩ := hw
  cases r with
  | note entry => cases depth <;> exact ⟨_, _, rfl⟩
  | flag => cases depth <;> exact ⟨_, _, rfl⟩
  | perform op => exact absurd rfl (hr op)
  | print output =>
    have hserve (v : Workbench) : serve depth (.print output) v = v.print output := by
      cases depth <;> rfl
    rw [hserve, print]
    split <;> exact ⟨_, _, rfl⟩

theorem noted_announce (hls : Silent w.listeners) (depth : Nat) :
    w.Noted (announce (serve depth) w).1 := by
  refine inTurn_keeps (fun l hl v hv => ?_) ⟨_, _, rfl⟩
  refine inTurn_keeps (fun r hr u hu => noted_serve hu depth fun op hop => ?_) hv
  exact hls l hl op ⟨v.desk, hop ▸ hr⟩

theorem tell_of_silent {α : Type} {o : Outcome α} (hls : Silent w.listeners) :
    { w with desk := o.settled }.Noted ({ w with desk := o.desk }.tell o.change).1 := by
  unfold Workbench.tell tellBy Outcome.settled
  cases o.change with
  | none => exact ⟨_, _, rfl⟩
  | some change =>
    cases change with
    | kept => exact noted_announce (w := { w with desk := o.desk.scheduleSave }) hls _
    | passing => exact noted_announce (w := { w with desk := o.desk }) hls _

structure Guarded (path : Path) (before : Tree) (first : Session) (handed written : List Session)
    (w : Workbench) : Prop where
  desk : w.desk.Guarded path before first handed written
  listeners : Silent w.listeners

theorem Guarded.noted {u : Workbench} (h : u.Guarded path before first handed written)
    (hw : u.Noted w) : w.Guarded path before first handed written := by
  obtain ⟨j, flag, rfl⟩ := hw
  exact ⟨h.desk.still rfl rfl rfl rfl, h.listeners⟩

theorem Guarded.tell {α : Type} {o : Outcome α} (hls : Silent w.listeners)
    (ho : o.settled.Guarded path before first handed written) :
    ({ w with desk := o.desk }.tell o.change).1.Guarded path before first handed written :=
  Guarded.noted (u := { w with desk := o.settled }) ⟨ho, hls⟩ (tell_of_silent hls)

theorem Guarded.perform (h : w.Guarded path before first handed written) {op : Operation}
    (hop : ∀ s, op ≠ .restore s) :
    (w.perform op).1.Guarded path before first ((op.apply w.desk).handed ++ handed) written := by
  rw [perform_fst]
  exact Guarded.tell h.listeners (op.guarded h.desk hop)

theorem Guarded.tick (h : w.Guarded path before first handed written) :
    w.tick.Guarded path before first (w.tickHanded ++ handed) written := by
  obtain ⟨d, hd⟩ : ∃ d, d = { w.desk with pacer := w.desk.pacer.beginTick } := ⟨_, rfl⟩
  have hguarded : d.Guarded path before first handed written := by
    rw [hd]
    exact h.desk.still rfl rfl rfl rfl
  have hrunning : d.running = w.desk.running := by rw [hd]; rfl
  unfold Workbench.tick tickHanded
  simp only [← hd, hrunning]
  cases w.desk.running with
  | false => exact ⟨hguarded, h.listeners⟩
  | true =>
    have htell := Guarded.tell h.listeners
      (hguarded.settled (Desk.honest_advance hguarded.challenge))
    simp only [Bool.not_true, Bool.false_eq_true, if_false, if_true]
    split
    · next v more hv _ =>
      rw [hv] at htell
      exact ⟨htell.desk.still rfl rfl rfl rfl, htell.listeners⟩
    · next v fault _ hv _ =>
      rw [hv] at htell
      exact htell

theorem Guarded.withAgenda (h : w.Guarded path before first handed written) (a : Agenda Alarm) :
    (w.withAgenda a).Guarded path before first handed written :=
  ⟨h.desk.still rfl rfl rfl rfl, h.listeners⟩

theorem Since.guarded (h : Since w₀ handed written w)
    (h₀ : w₀.Guarded path before first [] []) : w.Guarded path before first handed written := by
  induction h with
  | start => exact h₀
  | perform _ hop ih => exact ih.perform hop
  | tick _ _ _ ih => exact (ih.withAgenda _).tick
  | @answer _ _ _ _ alarm a _ _ _ ih =>
    exact ⟨(ih.withAgenda a).desk.answerKeeper alarm, ih.listeners⟩
  | pass _ _ _ ih => exact ih.withAgenda _
  | flush _ ih => exact ⟨ih.desk.flush.1, ih.listeners⟩
  | listen _ hls ih => exact ⟨ih.desk, hls⟩
  | note j _ ih => exact ⟨ih.desk.still rfl rfl rfl rfl, ih.listeners⟩

theorem Since.host (h : Since w₀ handed written w) : w.host = w₀.host := by
  induction h with
  | start => rfl
  | perform _ _ ih => exact (stands_perform _ _).host.trans ih
  | tick _ _ _ ih => exact (stands_fire _ .tick).host.trans ih
  | answer _ _ _ ih => exact (stands_fire _ _).host.trans ih
  | pass _ _ _ ih => exact ih
  | flush _ ih => exact ih
  | listen _ _ ih => exact ih
  | note _ _ ih => exact ih

/-- A new workbench with a keeper of the file at a path, or such a one that has gone to a
session. -/
inductive Opened (path : Path) (disk : Tree) : Workbench → Prop
  | new {settings : Settings} {c : Catalog} {delay : Time} {challenges : Int} {loop : Bool}
      {d : Desk} (host : Host) :
      Desk.new settings c (some (Keeper.new path delay challenges)) disk loop = .ok d →
      Opened path disk (.new host d)
  | restored {w : Workbench} {s : Session} {answer : Answer} :
      Opened path disk w → (w.perform (.restore s)).2 = .ok answer →
      Opened path disk (w.perform (.restore s)).1

theorem guarded_new {settings : Settings} {c : Catalog} {delay : Time} {challenges : Int}
    {loop : Bool} {d : Desk} (haccepts : before.Accepts path)
    (h : Desk.new settings c (some (Keeper.new path delay challenges)) before loop = .ok d) :
    d.Guarded path before d.session [] [] := by
  obtain ⟨first, rest, hc, hwork⟩ := work_of_new h
  have hget : ∃ challenge, d.challenge = .ok challenge := by
    have hcatalog : d.catalog = c := congrArg Work.catalog hwork
    have hindex : d.index = 0 := congrArg Work.index hwork
    rw [Desk.challenge, hcatalog, hindex]
    exact c.get_eq_ok (Int.le_refl 0) (by rw [hc]; exact Int.natCast_pos.2 (Nat.succ_pos _))
  refine ⟨rfl, ?_, hget⟩
  unfold Desk.new at h
  rw [hc] at h
  dsimp only at h
  split at h
  · cases h
  · cases h
    exact ⟨_, rfl, Keeper.serves_new haccepts, fun _ _ => rfl⟩

theorem Guarded.restore (h : w.Guarded path before first [] []) {s : Session} {answer : Answer}
    (hs : (w.perform (.restore s)).2 = .ok answer) :
    (w.perform (.restore s)).1.Guarded path before
      (w.perform (.restore s)).1.desk.session [] [] := by
  obtain ⟨u, hu⟩ : ∃ u, (w.desk.restore s).answer = .ok u := by
    cases hanswer : (w.desk.restore s).answer with
    | error f =>
      have hfailed : ((Operation.restore s).apply w.desk).answer = .error f := by
        have hmap : ((Operation.restore s).apply w.desk).answer =
            (w.desk.restore s).answer.map fun _ => Answer.done := rfl
        rw [hmap, hanswer]
        rfl
      rw [perform_snd, hfailed] at hs
      cases hfault : (w.announced (.restore s)).2 <;> rw [hfault] at hs <;> cases hs
    | ok u => exact ⟨u, rfl⟩
  have hsettled : (w.desk.restore s).settled = (w.desk.restore s).desk := by
    obtain ⟨index, m, j, c, -, hrestore⟩ := Desk.restore_eq_of_ok hu
    rw [hrestore]
    rfl
  obtain ⟨j, flag, hj⟩ := tell_of_silent (o := w.desk.restore s) h.listeners
  have hw : (w.perform (.restore s)).1 =
      { w with
        desk := { (w.desk.restore s).desk with journal := j }
        flagged := flag } := by
    rw [perform_fst, ← hsettled]
    exact hj
  rw [hw]
  exact ⟨(h.desk.restore hu).still rfl rfl rfl rfl, h.listeners⟩

theorem Opened.guarded (haccepts : before.Accepts path) (h : Opened path before w) :
    w.Guarded path before w.desk.session [] [] := by
  induction h with
  | new _ hd => exact ⟨guarded_new haccepts hd, nofun⟩
  | restored _ hs ih => exact ih.restore hs

theorem Guarded.pending_or_written (h : w.Guarded path before first handed written) :
    (handed = [] ∧ written = [] ∧ w.desk.session = first ∧ w.desk.pending = none ∧
        w.desk.disk = before) ∨
      (handed.head? = some w.desk.session ∧
        (w.desk.pending = some w.desk.session ∨
          (w.desk.pending = none ∧ (w.desk.session.isWritable = true →
            written.head? = some w.desk.session ∧
              w.desk.disk.read path = .ok w.desk.session.bytes)))) := by
  obtain ⟨hsession, ⟨k, hk, hserves, hwritten⟩, -⟩ := h.desk
  have hpending : w.desk.pending = k.pending := by rw [Desk.pending, hk]; rfl
  rw [hpending]
  cases handed with
  | nil =>
    left
    cases hserves.heeds with
    | untouched hnone hdisk =>
      have hhead := hwritten hnone (by rintro s ⟨⟩)
      exact ⟨rfl, List.head?_eq_none_iff.1 hhead, hsession, hnone, hdisk⟩
  | cons s handed =>
    right
    obtain rfl : w.desk.session = s := hsession
    refine ⟨rfl, ?_⟩
    cases hpending : k.pending with
    | some s =>
      cases hserves.eq_of_pending hpending
      exact .inl rfl
    | none =>
      refine .inr ⟨rfl, fun hs => ⟨hwritten hpending ?_, hserves.read_of_keep hpending hs⟩⟩
      rintro _ ⟨⟩
      exact hs

/-- Whatever has happened since a workbench was opened: either no session has been handed over yet
and the session and the disk are as they were, or the one that was handed over last is the present
one, and it is pending, or else it is the one that was written last, and it is in the file, unless
one of its numbers is too long to be written. -/
theorem session_pending_or_written (haccepts : before.Accepts path) (h₀ : Opened path before w₀)
    (h : Since w₀ handed written w) :
    (handed = [] ∧ written = [] ∧ w.desk.session = w₀.desk.session ∧ w.desk.pending = none ∧
        w.desk.disk = before) ∨
      (handed.head? = some w.desk.session ∧
        (w.desk.pending = some w.desk.session ∨
          (w.desk.pending = none ∧ (w.desk.session.isWritable = true →
            written.head? = some w.desk.session ∧
              w.desk.disk.read path = .ok w.desk.session.bytes)))) :=
  (h.guarded (h₀.guarded haccepts)).pending_or_written

def keptBench : Workbench :=
  .new .plain { firstDesk with keeper := some (.new ⟨"", ["last.json"]⟩ (.finite 500) 5) }

/-- A rule is added and the keeper is flushed: then the session is in the file. -/
theorem session_written_after_edit :
    ∃ w₀ w handed written, Opened ⟨"", ["last.json"]⟩ .empty w₀ ∧ Since w₀ handed written w ∧
      handed ≠ [] ∧ w.desk.disk.read ⟨"", ["last.json"]⟩ = .ok w.desk.session.bytes := by
  have hopened : Opened ⟨"", ["last.json"]⟩ .empty keptBench :=
    @Opened.new _ _ .default .standard (.finite 500) 5 true _ .plain rfl
  obtain ⟨w, hw⟩ : ∃ w, w = (keptBench.perform .addRule).1 := ⟨_, rfl⟩
  have hedit : Since keptBench ((Operation.addRule.apply keptBench.desk).handed ++ []) [] w :=
    hw ▸ Since.start.perform nofun
  have hflushed := ((hedit.guarded (hopened.guarded Tree.accepts_empty)).desk.flush).2.1
  have hwritable : w.flush.desk.session.isWritable = true := by
    rw [flush, Desk.session_flush, hw]
    decide +kernel
  refine ⟨keptBench, _, _, _, hopened, hedit.flush, List.cons_ne_nil _ _, ?_⟩
  obtain ⟨hnil, -⟩ | ⟨-, hpending | ⟨-, hwritten⟩⟩ :=
    session_pending_or_written Tree.accepts_empty hopened hedit.flush
  · cases hnil
  · cases hflushed.symm.trans hpending
  · exact (hwritten hwritable).2

/-- The index of a session is taken over even if there is no such challenge. A step that enters the
halting state fails then, after it has changed the tape, and this is not handed to the keeper. -/
def LostChallengeEscapes : Prop :=
  ∃ w, w = ((keptBench.perform (.restore ⟨some 99, none, none, none⟩)).1.perform
      (.useRules ⟨[⟨"q0", "1", "0", .stay, haltState⟩]⟩)).1 ∧
    (w.perform .step).2 = .error (.lostChallenge true) ∧
    (w.perform .step).1.desk.session.cells ≠ w.desk.session.cells ∧
    (w.perform .step).1.desk.pending = some w.desk.session

/-- A head with too many digits is taken over. When the session is to be written, this fails, and it
is not pending any more. -/
def LongNumberIsLost : Prop :=
  ∃ w, w = ((keptBench.perform
      (.restore ⟨none, none, none, some (.negSucc (Nat.pow 10 5000))⟩)).1.perform .addRule).1 ∧
    w.desk.pending = some w.desk.session ∧ w.flush.desk.pending = none ∧
    w.flush.desk.disk.read ⟨"", ["last.json"]⟩ =
      .error (.refused .notFound ⟨"", ["last.json"]⟩)

/-- A change may escape the keeper after a session has been restored that no save holds. -/
theorem changes_may_escape : LostChallengeEscapes ∧ LongNumberIsLost := by
  refine ⟨⟨_, rfl, ?_⟩, ⟨_, rfl, ?_⟩⟩
  · decide +kernel
  · obtain ⟨d, hd⟩ : ∃ d, d = ((keptBench.perform (.restore ⟨none, none, none,
      some (.negSucc (Nat.pow 10 5000))⟩)).1.perform .addRule).1.desk := ⟨_, rfl⟩
    have hpending : d.pending = some d.session := by
      rw [hd]
      decide +kernel
    have hlong : d.session.isWritable = false := by
      rw [hd]
      decide +kernel
    have hempty : d.disk = .empty := by
      rw [hd]
      decide +kernel
    have hplace : d.keeper.map Keeper.path = some ⟨"", ["last.json"]⟩ := by
      rw [hd]
      decide +kernel
    obtain ⟨hnone, k, hk, hdisk⟩ := Desk.flush_of_long hpending hlong
    simp only [flush, ← hd]
    refine ⟨hpending, hnone, ?_⟩
    rw [hk] at hplace
    rw [hdisk, hempty, Option.some.inj hplace, Tree.ready_empty.beginWrite]
    exact Tree.ready_empty.read_remove

end Workbench

end TapeLab
