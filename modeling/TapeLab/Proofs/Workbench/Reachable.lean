import TapeLab.Proofs.Clockwork
import TapeLab.Proofs.Workbench.Announcement

/-!
Everything that can happen to a workbench, from a new desk on: operations, timers that fire,
listeners that come and go, and time that passes. Timers fire in any order, and whenever a live one
is left; the order of the clockwork is one of them. What is an `Invariant` of the work holds at all
of these workbenches.
-/

namespace TapeLab

namespace Workbench

def withAgenda (a : Agenda Alarm) (w : Workbench) : Workbench :=
  { w with desk := { w.desk with agenda := a } }

mutual

/-- The workbenches that can be reached with the challenges `c`, if listeners ask for `may`
operations only. -/
inductive Reachable (c : Catalog) (may : Operation → Prop) : Workbench → Prop
  | new {settings : Settings} {store : Option (Path × Time × Int)} {disk : Tree} {loop : Bool}
      {d : Desk} {host : Host} :
      Desk.new settings c (store.map fun s => Keeper.new s.1 s.2.1 s.2.2) disk loop = .ok d →
      Reachable c may (.new host d)
  | perform {w : Workbench} {op : Operation} :
      Reachable c may w → Permitted c may op → Reachable c may (w.perform op).1
  | fire {w : Workbench} {id : Nat} {alarm : Alarm} {a : Agenda Alarm} :
      Reachable c may w → w.desk.agenda.alarms.Perm ((id, alarm) :: a.alarms) →
      a.next = w.desk.agenda.next → Reachable c may ((w.withAgenda a).fire alarm)
  | pass {w : Workbench} {a : Agenda Alarm} :
      Reachable c may w → w.desk.agenda.alarms.Perm a.alarms → w.desk.agenda.next ≤ a.next →
      Reachable c may (w.withAgenda a)
  | subscribe {w : Workbench} {l : Listener} :
      Reachable c may w → (∀ op, l.Asks op → may op) → (∀ op, l.Asks op → Permitted c may op) →
      Reachable c may (w.subscribe l)
  | unsubscribe {w v : Workbench} {key : String} :
      Reachable c may w → w.unsubscribe? key = some v → Reachable c may v

/-- Operations as they are asked for: a session that is restored has been read from a save, for as
many challenges, or taken from a workbench that can be reached. -/
inductive Permitted (c : Catalog) (may : Operation → Prop) : Operation → Prop
  | plain {op : Operation} : (∀ s, op ≠ .restore s) → Permitted c may op
  | saved {json : Json} {s : Session} : Session.ofJson json c.challenges.length = some s →
      Permitted c may (.restore s)
  | taken {w : Workbench} : Reachable c may w → Permitted c may (.restore w.desk.session)

end

def Kept (c : Catalog) (P : Work → Prop) (s : Session) : Prop :=
  (∃ json, Session.ofJson json c.challenges.length = some s) ∨
    ∃ v : Work, v.catalog = c ∧ P v ∧ s = v.session

/-- What holds of the work at a new desk and is kept by all that can become of it. -/
structure Invariant (c : Catalog) (P : Work → Prop) : Prop where
  new (settings : Settings) {first : Challenge} {rest : List Challenge} :
    c.challenges = first :: rest →
      P ⟨c, 0, .start ⟨first.rules⟩ (.ofCells first.cells) first.head initialState 0
        settings.bounds⟩
  step {u v : Work} : u.catalog = c → P u → Work.Becomes (Kept c P) u v → P v

def firstDesk : Desk where
  catalog := .standard
  index := 0
  machine := .start ⟨inverterRules⟩ (.ofCells ["1", "0", "1", "1", "0", "0", "1"]) 0 initialState 0
    .default
  pacer := .new 300
  keeper := none
  agenda := .empty
  disk := .empty
  journal := []
  loop := true

theorem new_firstDesk : Desk.new .default .standard none .empty true = .ok firstDesk := rfl

def firstBench : Workbench := .new .plain firstDesk

theorem reachable_firstBench (may : Operation → Prop) : Reachable .standard may firstBench :=
  @Reachable.new .standard may .default none .empty true firstDesk .plain new_firstDesk

variable {c : Catalog} {may asked : Operation → Prop} {P : Work → Prop}

theorem Reachable.goUntil {w : Workbench} (h : Reachable c may w) (done : Workbench → Bool)
    (patience : Nat) : Reachable c may (clockwork.goUntil done patience w) :=
  clockwork.goUntil_keeps (fun _ _ hw halarms hnext => hw.pass halarms (Nat.le_of_eq hnext.symm))
    (fun _ _ _ _ hw halarms hnext => hw.fire halarms hnext) patience h

theorem work_of_new {settings : Settings} {keeper : Option Keeper} {disk : Tree} {loop : Bool}
    {d : Desk} (h : Desk.new settings c keeper disk loop = .ok d) :
    ∃ first rest, c.challenges = first :: rest ∧
      d.work = ⟨c, 0, .start ⟨first.rules⟩ (.ofCells first.cells) first.head initialState 0
        settings.bounds⟩ := by
  unfold Desk.new at h
  split at h
  · cases h
  · next first rest hc =>
    split at h
    · cases h
    · obtain rfl := Except.ok.inj h
      exact ⟨first, rest, hc, rfl⟩

theorem modest_new (host : Host) (d : Desk) : Modest asked (new host d).listeners :=
  fun _ hl => absurd hl List.not_mem_nil

theorem modest_subscribe {w : Workbench} {l : Listener} (hls : Modest asked w.listeners)
    (hl : ∀ op, l.Asks op → asked op) : Modest asked (w.subscribe l).listeners := by
  intro k hk
  rcases List.mem_append.1 hk with hk | hk
  · exact hls k hk
  · obtain rfl := List.mem_singleton.1 hk
    exact hl

theorem unsubscribe?_cases {w v : Workbench} {key : String} (h : w.unsubscribe? key = some v) :
    v = { w with listeners := w.listeners.eraseP fun l => l.key == key } := by
  unfold unsubscribe? at h
  split at h
  · exact (Option.some.inj h).symm
  · cases h

theorem modest_unsubscribe {w v : Workbench} {key : String} (h : w.unsubscribe? key = some v)
    (hls : Modest asked w.listeners) : Modest asked v.listeners ∧ v.desk = w.desk := by
  obtain rfl := unsubscribe?_cases h
  exact ⟨fun l hl => hls l (List.mem_of_mem_eraseP hl), rfl⟩

theorem Invariant.step_and_catalog (hP : Invariant c P) (u v : Work) (hu : u.catalog = c ∧ P u)
    (huv : Work.Becomes (Kept c P) u v) : v.catalog = c ∧ P v :=
  ⟨huv.catalog.trans hu.1, hP.step hu.1 hu.2 huv⟩

-- the listeners are part of the induction, since what they ask for is restored, too

mutual

theorem Reachable.keeps (hP : Invariant c P) : ∀ {w : Workbench}, Reachable c may w →
    Modest (Restores (Kept c P)) w.listeners ∧ w.desk.work.catalog = c ∧ P w.desk.work
  | _, .new h => by
    obtain ⟨first, rest, hc, hwork⟩ := work_of_new h
    refine ⟨modest_new _ _, ?_⟩
    rw [desk_new, hwork]
    exact ⟨rfl, hP.new _ hc⟩
  | _, .perform hw hop => by
    obtain ⟨hls, hwork⟩ := hw.keeps hP
    obtain ⟨hlisteners, hwork'⟩ :=
      perform_keeps hP.step_and_catalog hls (hop.keeps hP) hwork
    exact ⟨hlisteners ▸ hls, hwork'⟩
  | _, @Reachable.fire _ _ w _ alarm a hw _ _ => by
    obtain ⟨hls, hwork⟩ := hw.keeps hP
    obtain ⟨hlisteners, hwork'⟩ :=
      fire_keeps (w := w.withAgenda a) hP.step_and_catalog hls hwork alarm
    exact ⟨hlisteners ▸ hls, hwork'⟩
  | _, .pass hw _ _ => hw.keeps hP
  | _, .subscribe hw _ hl => by
    obtain ⟨hls, hwork⟩ := hw.keeps hP
    exact ⟨modest_subscribe hls fun op hop => (hl op hop).keeps hP, hwork⟩
  | _, .unsubscribe hw h => by
    obtain ⟨hls, hwork⟩ := hw.keeps hP
    obtain ⟨hls', hdesk⟩ := modest_unsubscribe h hls
    exact ⟨hls', hdesk ▸ hwork⟩

theorem Permitted.keeps (hP : Invariant c P) : ∀ {op : Operation}, Permitted c may op →
    Restores (Kept c P) op
  | _, .plain h => fun s hs => absurd hs (h s)
  | _, .saved h => by
    rintro s ⟨⟩
    exact .inl ⟨_, h⟩
  | _, .taken hw => by
    rintro s ⟨⟩
    obtain ⟨-, hc, hwork⟩ := hw.keeps hP
    exact .inr ⟨_, hc, hwork, rfl⟩

end

theorem Reachable.invariant {w : Workbench} (h : Reachable c may w) (hP : Invariant c P) :
    w.desk.catalog = c ∧ P w.desk.work := (h.keeps hP).2

end Workbench

end TapeLab
