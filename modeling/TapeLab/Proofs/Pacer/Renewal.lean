import Mathlib.Logic.Relation
import TapeLab.Proofs.Clockwork
import TapeLab.Proofs.Pacer.Rehearsal

/-!
What a step may do to the pacer that calls it. While the step is going on the pacer knows of no
timer, and when it is over the next timer is set without a look at what the step has left. A call of
the step that ends its run and leaves another one, with a timer of its own, `Renews` the run; then
the pacer loses that timer from sight. If no call does so, the timer that the pacer knows of is the
only one for a tick, whatever else the calls do and in whatever order the rest happens.
-/

namespace TapeLab

/-- What has become of the run in which a step was called. -/
inductive Stand
  | going
  | over
  | renewed
  deriving DecidableEq, Repr

def Stand.after : Stand → PacerAction → Stand
  | .over, .start => .renewed
  | stand, .start => stand
  | _, .pause => .over
  | _, .reset => .over
  | .renewed, .cancel => .going
  | stand, .cancel => stand

/-- The call ends its run and leaves another one. -/
def ScriptedCall.Renews (c : ScriptedCall) : Prop := c.actions.foldl Stand.after .going = .renewed

instance : DecidablePred ScriptedCall.Renews :=
  fun c => inferInstanceAs (Decidable (c.actions.foldl Stand.after .going = .renewed))

/-- No call of the step renews the run. -/
def Script.Steady (script : Script) : Prop := ∀ n, ¬ (script n).Renews

namespace Rehearsal

variable {script : Script} {only : Prop} {r s : Rehearsal} {c : ScriptedCall} {stand : Stand}

@[simp] theorem pacer_withPair (r : Rehearsal) (p : Pacer × Agenda Cue) :
    (r.withPair p).pacer = p.1 := (spares_withPair r p).pacer

@[simp] theorem halted_withPair (r : Rehearsal) (p : Pacer × Agenda Cue) :
    (r.withPair p).halted = r.halted := (spares_withPair r p).halted

@[simp] theorem loop_withPair (r : Rehearsal) (p : Pacer × Agenda Cue) :
    (r.withPair p).loop = r.loop := (spares_withPair r p).loop

def standOf (p : Pacer) : Stand :=
  if p.running then if p.pending then .renewed else .going else .over

theorem standOf_of_idle {p : Pacer} (h : p.phase = .idle) : standOf p = .over := by
  simp [standOf, Pacer.running, h]

theorem standOf_of_running {p : Pacer} (h : p.running = true) :
    standOf p = if p.pending then .renewed else .going := by
  rw [standOf, if_pos h]

theorem standOf_cancel (p : Pacer) (a : Agenda Cue) :
    standOf (p.cancel a).1 = (standOf p).after .cancel := by
  rw [Pacer.cancel_eq]
  cases hrunning : p.running with
  | false => simp_all [standOf, Pacer.running, Stand.after]
  | true =>
    cases hpending : p.pending <;>
      simp_all [standOf, Pacer.running, Pacer.pending, Stand.after]

/-- A tick has brought the run to this stand, unless no run can be started. -/
structure Tracks (stand : Stand) (r : Rehearsal) : Prop where
  phase : r.pacer.phase ≠ .halted
  idle : r.pacer.running = false → r.pacer.handle = none
  stand : standOf r.pacer = stand ∨
    ((r.halted = true ∨ r.loop = false) ∧ standOf r.pacer ≠ .renewed)

theorem Tracks.handle (h : Tracks stand r) (hstand : stand ≠ .renewed) :
    r.pacer.handle = none := by
  have hne : standOf r.pacer ≠ .renewed := by
    rcases h.stand with heq | ⟨-, hne⟩
    · exact heq ▸ hstand
    · exact hne
  cases hrunning : r.pacer.running with
  | false => exact h.idle hrunning
  | true =>
    by_contra hhandle
    exact hne (by simp [standOf, hrunning, Pacer.pending, Option.isSome_iff_ne_none, hhandle])

theorem tracks_over {p : Pacer × Agenda Cue} (hphase : p.1.phase = .idle)
    (hnone : p.1.handle = none) : Tracks .over (r.withPair p) where
  phase := by simp [hphase]
  idle _ := by simpa using hnone
  stand := .inl (by simp [standOf, Pacer.running, hphase])

theorem Tracks.start (h : Tracks stand r) : Tracks (stand.after .start) (r.act .start) := by
  rw [act_start]
  split
  · next hfree =>
    have hstand : stand = .over := by
      rcases h.stand with heq | ⟨hhalted | hloop, -⟩
      · simpa [standOf, Pacer.running, hfree.1] using heq.symm
      · exact absurd (hfree.2.1.symm.trans hhalted) (by simp)
      · exact absurd (hfree.2.2.symm.trans hloop) (by simp)
    refine ⟨by simp [Pacer.begun, Pacer.schedule], fun hidle => ?_, .inl ?_⟩
    · simp [Pacer.begun, Pacer.schedule, Pacer.running] at hidle
    · simp [hstand, Pacer.begun, Pacer.schedule, standOf, Pacer.running, Pacer.pending, Stand.after]
  · next hrefused =>
    -- The pacer is running, or else whatever keeps this run from starting lasts for the whole call.
    refine ⟨h.phase, h.idle, ?_⟩
    cases hphase : r.pacer.phase with
    | idle =>
      refine .inr ⟨?_, by simp [standOf_of_idle hphase]⟩
      simpa [hphase, or_iff_not_imp_left] using hrefused
    | running =>
      refine h.stand.imp_left fun heq => ?_
      rw [← heq, standOf_of_running (by simp [Pacer.running, hphase])]
      split <;> rfl
    | halted => exact absurd hphase h.phase

theorem Tracks.act (h : Tracks stand r) (x : PacerAction) : Tracks (stand.after x) (r.act x) := by
  cases x with
  | start => exact h.start
  | pause =>
    have hphase : (r.pacer.pause r.agenda).1.phase = .idle := by
      have hnot := h.phase
      rw [Pacer.pause_eq]
      split
      · rfl
      · next hrunning =>
        cases hphase : r.pacer.phase <;> simp_all [Pacer.running]
    have hover : stand.after .pause = .over := by cases stand <;> rfl
    exact hover ▸ tracks_over hphase (Pacer.handle_pause _ _)
  | reset =>
    have hphase : (r.pacer.reset r.agenda).1.phase = .idle := by rw [Pacer.reset_eq]; rfl
    have hover : stand.after .reset = .over := by cases stand <;> rfl
    exact hover ▸ tracks_over hphase (Pacer.handle_reset _ _)
  | cancel =>
    have hpacer : (r.act .cancel).pacer = (r.pacer.cancel r.agenda).1 := pacer_withPair _ _
    refine ⟨?_, fun _ => ?_, ?_⟩
    · rw [hpacer, Pacer.cancel_eq]
      exact h.phase
    · rw [hpacer, Pacer.cancel_eq]
    · rw [hpacer, standOf_cancel]
      refine h.stand.imp (fun heq => by rw [heq]) fun hblocked => ?_
      refine ⟨?_, ?_⟩
      · show (r.cancel.halted = true ∨ r.cancel.loop = false)
        simpa [Rehearsal.cancel] using hblocked.1
      · cases standOf r.pacer <;> simp [Stand.after]

theorem Tracks.acts (h : Tracks stand r) (xs : List PacerAction) :
    Tracks (xs.foldl Stand.after stand) (xs.foldl Rehearsal.act r) := by
  induction xs generalizing stand r with
  | nil => exact h
  | cons x xs ih => exact ih (h.act x)

theorem tracks_call (hrunning : r.pacer.running = true) (hnone : r.pacer.handle = none)
    (c : ScriptedCall) : Tracks (c.actions.foldl Stand.after .going) (r.call c) := by
  have hphase : r.pacer.phase = .running := by simpa [Pacer.running] using hrunning
  have hbegin : Tracks .going { r with
      calls := r.calls + 1
      ticks := r.agenda.now :: r.ticks
      halted := r.halted || c.halts } := by
    refine ⟨?_, fun _ => hnone, .inl ?_⟩
    · simp [hphase]
    · simp [standOf, hrunning, Pacer.pending, hnone]
  exact hbegin.acts c.actions

theorem handle_call (hrunning : r.pacer.running = true) (hnone : r.pacer.handle = none)
    (hc : ¬ c.Renews) : (r.call c).pacer.handle = none :=
  (tracks_call hrunning hnone c).handle hc

theorem Orderly.endTick (h : r.Orderly only) (hnone : only → r.pacer.handle = none) (more : Bool) :
    (r.withPair (r.pacer.endTick .tick more r.halted r.agenda)).Orderly only := by
  unfold Pacer.endTick
  split
  · exact h.withPair h.holds h.idle (.refl _)
  · next hrunning =>
    split
    · refine h.withPair (h.holds.schedule hnone) (fun _ hidle => ?_)
        (Agenda.onward_insert (r.agenda.alarms_set _ _) rfl)
      exact absurd hidle (by simpa [Pacer.schedule, Pacer.running] using hrunning)
    · exact h.withPair ⟨h.holds.numbered, h.holds.held, h.holds.sole⟩ (fun ho _ => hnone ho)
        (.refl _)

variable {id : Nat} {a : Agenda Cue}

theorem Orderly.beginTick (h : r.Orderly only)
    (halarms : r.agenda.alarms.Perm ((id, .tick) :: a.alarms)) (hnext : a.next = r.agenda.next) :
    Orderly only { r with pacer := r.pacer.beginTick, agenda := a } :=
  ⟨(h.holds.fire halarms hnext).2, fun _ _ => rfl, fun i =>
    (h.limits i).onward (@Agenda.onward_remove _ _ _ [_] halarms (Nat.le_of_eq hnext.symm))⟩

theorem Orderly.tick (h : r.Orderly only) (hsteady : only → script.Steady)
    (halarms : r.agenda.alarms.Perm ((id, .tick) :: a.alarms)) (hnext : a.next = r.agenda.next) :
    ({ r with agenda := a }.tick script).Orderly only := by
  have hbegin := h.beginTick halarms hnext
  unfold Rehearsal.tick
  dsimp only
  split
  · exact hbegin
  · next hrunning =>
    refine (hbegin.call _).endTick (fun ho => ?_) _
    exact handle_call (by simpa using hrunning) rfl (hsteady ho _)

inductive Moves (script : Script) (r : Rehearsal) : Rehearsal → Prop
  | act (x : PacerAction) : Moves script r (r.act x)
  | adjust (halted : Bool) (delay : Int) :
      Moves script r { r with halted := halted, pacer := { r.pacer with delay := delay } }
  | addWaiter : Moves script r r.addWaiter
  | fire {id : Nat} {cue : Cue} {a : Agenda Cue} :
      r.agenda.alarms.Perm ((id, cue) :: a.alarms) → a.next = r.agenda.next →
      Moves script r ({ r with agenda := a }.fire script cue)
  | pass {a : Agenda Cue} :
      r.agenda.alarms.Perm a.alarms → r.agenda.next ≤ a.next →
      Moves script r { r with agenda := a }

theorem Orderly.moves (h : r.Orderly only) (hsteady : only → script.Steady)
    (hs : Moves script r s) : s.Orderly only := by
  cases hs with
  | act x => exact h.act x
  | adjust halted delay =>
    exact ⟨⟨h.holds.numbered, h.holds.held, h.holds.sole⟩, h.idle, h.limits⟩
  | addWaiter => exact h.addWaiter
  | @fire id cue a halarms hnext =>
    by_cases hcue : cue = .tick
    · subst hcue
      exact h.tick hsteady halarms hnext
    · have hother : Orderly only { r with agenda := a } :=
        ⟨h.holds.other halarms hnext (Ne.symm hcue), h.idle, fun i => (h.limits i).onward
          (@Agenda.onward_remove _ _ _ [_] halarms (Nat.le_of_eq hnext.symm))⟩
      cases cue with
      | tick => exact absurd rfl hcue
      | arrive i => exact hother.arrive i
      | look i => exact hother.look i
      | tell i phase turns =>
        cases turns with
        | zero => exact hother.tell i phase
        | succ turns => exact hother.putOff (by simp)
      | giveUp i => exact hother.giveUp i
  | @pass a halarms hnext =>
    exact ⟨⟨h.holds.numbered.perm halarms hnext, h.holds.held.perm halarms,
      fun ho => (h.holds.sole ho).perm halarms⟩, h.idle,
      fun i => (h.limits i).onward (@Agenda.onward_remove _ _ _ [] halarms hnext)⟩

theorem orderly_of_moves {delay : Int} {halted loop : Bool} (hsteady : only → script.Steady)
    (h : Relation.ReflTransGen (Moves script) (new delay halted loop) r) : r.Orderly only := by
  induction h with
  | refl => exact orderly_new only delay halted loop
  | tail _ hs ih => exact ih.moves hsteady hs

theorem moves_goUntil (done : Rehearsal → Bool) (patience : Nat) (r : Rehearsal) :
    Relation.ReflTransGen (Moves script) r ((clockwork script).goUntil done patience r) :=
  (clockwork script).goUntil_keeps
    (fun _ _ h halarms hnext => h.tail (.pass halarms (Nat.le_of_eq hnext.symm)))
    (fun _ _ _ _ h halarms hnext => h.tail (.fire halarms hnext)) patience .refl

theorem moves_sleep (patience : Nat) (delay : Rat) (r : Rehearsal) :
    Relation.ReflTransGen (Moves script) r (r.sleep script patience delay) := by
  unfold Rehearsal.sleep Clockwork.sleep
  split
  · have hset := (r.agenda.timers_set (.finite delay) (.bell 1)).filterMap Timer.alarm?
    exact .head (.pass hset.symm (Nat.le_succ _)) (moves_goUntil _ patience _)
  · have hput := (r.agenda.timers_putOff (.bell 0)).filterMap Timer.alarm?
    exact .head (.pass hput.symm (Nat.le_succ _)) (moves_goUntil _ patience _)

def rehearsed (script : Script) : Rehearsal :=
  ((new 100 false true).act .start).sleep script 9 250

theorem moves_rehearsed (script : Script) :
    Relation.ReflTransGen (Moves script) (new 100 false true) (rehearsed script) :=
  .head (.act .start) (moves_sleep 9 250 _)

theorem ticks_of_orderly (h : r.Orderly True) :
    r.agenda.timersFor .tick = r.pacer.handle.toList :=
  (h.holds.sole trivial).timersFor h.holds.numbered

theorem handle_start (h : r.start?.map Prod.snd = some true) :
    (r.act .start).pacer.handle = some r.agenda.next := by
  rw [start?_eq] at h
  split at h
  · next hfree =>
    split at h
    · next hloop =>
      rw [act_start, if_pos ⟨hfree.1, hfree.2, hloop⟩, pacer_withPair]
      rfl
    · cases h
  · cases h

/-- If no call renews the run, the timer that the pacer knows of is the only one for a tick. Pausing
and resetting leave none, and starting a run leaves one. -/
theorem ticks_of_steady {delay : Int} {halted loop : Bool} (hsteady : script.Steady)
    (h : Relation.ReflTransGen (Moves script) (new delay halted loop) r) :
    r.agenda.timersFor .tick = r.pacer.handle.toList ∧
      r.pause.agenda.timersFor .tick = [] ∧ r.reset.agenda.timersFor .tick = [] ∧
      (r.start?.map Prod.snd = some true →
        ∃ id, (r.act .start).agenda.timersFor .tick = [id]) := by
  have horderly : r.Orderly True := orderly_of_moves (fun _ => hsteady) h
  have hpause : r.pause.pacer.handle = none := by simp [Rehearsal.pause]
  have hreset : r.reset.pacer.handle = none := by simp [Rehearsal.reset]
  refine ⟨ticks_of_orderly horderly, ?_, ?_, fun hstart => ⟨r.agenda.next, ?_⟩⟩
  · exact (ticks_of_orderly (horderly.act .pause)).trans (congrArg Option.toList hpause)
  · exact (ticks_of_orderly (horderly.act .reset)).trans (congrArg Option.toList hreset)
  · rw [ticks_of_orderly (horderly.act .start), handle_start hstart]
    rfl

def cancelling : Script := fun _ => ⟨false, [.pause, .start, .cancel], true⟩

/-- Two calls have been made; the timer of the third one is the only one. It is gone after a pause,
and then another run can be started. -/
theorem cancelling_ticks :
    cancelling.Steady ∧
      Relation.ReflTransGen (Moves cancelling) (new 100 false true) (rehearsed cancelling) ∧
      (rehearsed cancelling).ticks = [200, 100] ∧
      (rehearsed cancelling).pacer.handle.isSome = true ∧
      (rehearsed cancelling).agenda.timersFor .tick =
        (rehearsed cancelling).pacer.handle.toList ∧
      (rehearsed cancelling).pause.agenda.timersFor .tick = [] ∧
      (rehearsed cancelling).reset.agenda.timersFor .tick = [] ∧
      ∃ id, ((rehearsed cancelling).pause.act .start).agenda.timersFor .tick = [id] := by
  have hsteady : cancelling.Steady := by
    intro n
    show ¬ ScriptedCall.Renews ⟨false, [.pause, .start, .cancel], true⟩
    decide
  have hmoves := moves_rehearsed cancelling
  obtain ⟨hticks, hpause, hreset, -⟩ := ticks_of_steady hsteady hmoves
  obtain ⟨-, -, -, hstart⟩ := ticks_of_steady hsteady (hmoves.tail (.act .pause))
  exact ⟨hsteady, hmoves, by decide +kernel, by decide +kernel, hticks, hpause, hreset,
    hstart (by decide +kernel)⟩

theorem gates_act (r : Rehearsal) (x : PacerAction) :
    (r.act x).halted = r.halted ∧ (r.act x).loop = r.loop := by
  cases x with
  | start =>
    rw [act_start]
    split <;> simp
  | pause => simp [act, Rehearsal.pause]
  | reset => simp [act, Rehearsal.reset]
  | cancel => simp [act, Rehearsal.cancel]

theorem gates_acts (xs : List PacerAction) (r : Rehearsal) :
    (xs.foldl act r).halted = r.halted ∧ (xs.foldl act r).loop = r.loop := by
  induction xs generalizing r with
  | nil => exact ⟨rfl, rfl⟩
  | cons x xs ih =>
    obtain ⟨hhalted, hloop⟩ := gates_act r x
    exact ⟨(ih _).1.trans hhalted, (ih _).2.trans hloop⟩

theorem pending_of_renews (hrunning : r.pacer.running = true) (hnone : r.pacer.handle = none)
    (hloop : r.loop = true) (hhalted : (r.halted || c.halts) = false) (hrenews : c.Renews) :
    (r.call c).pacer.running = true ∧ ∃ id, (r.call c).pacer.handle = some id := by
  have hstand : standOf (r.call c).pacer = .renewed := by
    obtain ⟨hcalled, hcalledLoop⟩ := gates_acts c.actions { r with
      calls := r.calls + 1
      ticks := r.agenda.now :: r.ticks
      halted := r.halted || c.halts }
    rcases (tracks_call hrunning hnone c).stand with heq | ⟨hhalts | hno, -⟩
    · exact heq.trans hrenews
    · exact absurd (hhalts.symm.trans (hcalled.trans hhalted)) (by simp)
    · exact absurd (hno.symm.trans (hcalledLoop.trans hloop)) (by simp)
  unfold standOf at hstand
  split at hstand
  · next hgoing =>
    refine ⟨hgoing, Option.isSome_iff_exists.1 ?_⟩
    by_contra hpending
    simp [Pacer.pending, hpending] at hstand
  · cases hstand

theorem lost_of_schedule {id : Nat} (h : r.Orderly only) (hhandle : r.pacer.handle = some id) :
    id ∈ (r.withPair (r.pacer.schedule .tick r.agenda)).pause.agenda.timersFor .tick := by
  obtain ⟨s, hs⟩ : ∃ s, s = r.withPair (r.pacer.schedule .tick r.agenda) := ⟨_, rfl⟩
  have hspares := spares_withPair r (r.pacer.schedule .tick r.agenda)
  rw [← hs] at hspares ⊢
  have hold : (id, Cue.tick) ∈ r.agenda.alarms := h.holds.held id hhandle
  have hset : (id, Cue.tick) ∈ s.agenda.alarms := by
    have hperm := r.agenda.alarms_set (.finite r.pacer.delay) .tick
    exact hspares.alarms (hperm.mem_iff.2 (List.mem_cons_of_mem _ hold))
  have hnewer : id ≠ r.agenda.next := Nat.ne_of_lt (h.holds.numbered.below _ hold)
  have hpaused : (s.pacer.pause s.agenda).2 = s.agenda.cancel r.agenda.next := by
    rw [Pacer.pause_eq, hspares.pacer]
    rfl
  refine Agenda.mem_timersFor.2 ((spares_withPair s (s.pacer.pause s.agenda)).alarms ?_)
  show (id, Cue.tick) ∈ (s.pacer.pause s.agenda).2.alarms
  rw [hpaused, Agenda.alarms_cancel, List.mem_filter]
  exact ⟨hset, by simpa using hnewer⟩

/-- A call that renews the run, and tells that there is more to do, makes the pacer lose a timer. -/
theorem lost_of_renews (h : r.Orderly only)
    (halarms : r.agenda.alarms.Perm ((id, .tick) :: a.alarms)) (hnext : a.next = r.agenda.next)
    (hrunning : r.pacer.running = true) (hloop : r.loop = true)
    (hhalted : (r.halted || (script (r.calls + 1)).halts) = false)
    (hrenews : (script (r.calls + 1)).Renews) (hmore : (script (r.calls + 1)).more = true) :
    ({ r with agenda := a }.tick script).pause.agenda.timersFor .tick ≠ [] := by
  obtain ⟨u, hu⟩ : ∃ u : Rehearsal, u = { r with pacer := r.pacer.beginTick, agenda := a } :=
    ⟨_, rfl⟩
  obtain ⟨c, hc⟩ : ∃ c, c = script (r.calls + 1) := ⟨_, rfl⟩
  rw [← hc] at hhalted hrenews hmore
  have hubegun : u.Orderly only := hu ▸ h.beginTick halarms hnext
  have hurunning : u.pacer.running = true := by rw [hu]; exact hrunning
  obtain ⟨hgoing, lost, hlost⟩ := pending_of_renews hurunning (by rw [hu]; rfl)
    (by rw [hu]; exact hloop) (by rw [hu]; exact hhalted) hrenews
  have htick : { r with agenda := a }.tick script =
      (u.call c).withPair ((u.call c).pacer.schedule .tick (u.call c).agenda) := by
    have hbegun : r.pacer.beginTick.running = true := hrunning
    unfold Rehearsal.tick Pacer.endTick
    simp only [← hu, ← hc, hbegun, hgoing, hmore, Bool.not_true, Bool.false_eq_true, if_false,
      if_true]
  rw [htick]
  exact List.ne_nil_of_mem (lost_of_schedule (hubegun.call c) hlost)

def renewing : Script := fun n => ⟨false, if n = 1 then [.pause, .start] else [], true⟩

/-- There are two ticks after 200 milliseconds, and a pause leaves a timer on the agenda. -/
theorem renewing_loses_timer :
    (rehearsed renewing).ticks = [200, 200, 100] ∧
    ¬ ∀ (script : Script) (r : Rehearsal),
      Relation.ReflTransGen (Moves script) (new 100 false true) r →
        r.agenda.timersFor .tick = r.pacer.handle.toList ∧
          r.pause.agenda.timersFor .tick = [] ∧ r.reset.agenda.timersFor .tick = [] := by
  refine ⟨by decide +kernel, fun hall => ?_⟩
  obtain ⟨-, hpause, -⟩ := hall renewing (rehearsed renewing) (moves_rehearsed renewing)
  have hlost : (rehearsed renewing).pause.agenda.timersFor .tick = [4] := by decide +kernel
  exact absurd (hlost.symm.trans hpause) (by decide)

end Rehearsal

end TapeLab
