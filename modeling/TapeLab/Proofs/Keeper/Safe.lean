import Mathlib.Data.List.Induction
import TapeLab.Keeper.Safe
import TapeLab.Proofs.Agenda.Clock
import TapeLab.Proofs.Keeper

/-!
What safes do in the course of time. Whatever happens to a safe on a disk that accepts all writes,
and in whichever order, the last request is met or still pending, no older session comes into the
file after it, and the timer of the writing goes off when its delay is over, unless something else
was asked for meanwhile.
-/

namespace TapeLab.Safe

open Keeper (Request)

inductive Event
  | schedule (loop : Bool) (s : Session)
  | cancel
  | flush
  | clear
  | wait (ms : Rat) (turns : Nat)
  | call

namespace Event

def Passes : Event → Prop
  | wait _ _ | call => True
  | _ => False

def session? : Event → Option Session
  | schedule _ s => some s
  | _ => none

def request? : Event → Option Request
  | schedule _ s => some (.keep s)
  | clear => some .clear
  | _ => none

end Event

def respond (f : Safe) : Event → Safe
  | .schedule loop s => { f with loop := loop }.schedule s
  | .cancel => f.cancel
  | .flush => f.flush.1
  | .clear => f.clear.1
  | .wait ms turns => { f with
      agenda := if 0 < ms then (f.agenda.set (.finite ms) (.bell turns)).1
        else (f.agenda.putOff (.bell (turns - 1))).1 }
  | .call =>
    match f.agenda.advance? with
    | none => f
    | some (none, a) => { f with agenda := a }
    | some (some alarm, a) => fire alarm { f with agenda := a }

def run (f : Safe) (es : List Event) : Safe := es.foldl respond f

def scheduled (es : List Event) : List Session := es.filterMap Event.session?

def lastRequest (es : List Event) : Option Request := (es.filterMap Event.request?).getLast?

def span (ms : Rat) : Rat := if ms < 0 then 0 else ms

variable {path : Path} {before : Tree} {asked : Option Request} {f g start : Safe} {s : Session}
  {es es₁ es₂ : List Event} {e : Event} {delay : Time} {ms moment : Rat}

@[simp] theorem run_nil (f : Safe) : f.run [] = f := rfl

theorem run_concat (f : Safe) (es : List Event) (e : Event) :
    f.run (es ++ [e]) = (f.run es).respond e := List.foldl_concat ..

theorem respond_call_none (h : f.agenda.advance? = none) : f.respond .call = f := by
  rw [respond, h]

theorem respond_call_pass {a : Agenda KeeperAlarm} (h : f.agenda.advance? = some (none, a)) :
    f.respond .call = { f with agenda := a } := by
  rw [respond, h]

theorem respond_call_fire {alarm : KeeperAlarm} {a : Agenda KeeperAlarm}
    (h : f.agenda.advance? = some (some alarm, a)) :
    f.respond .call = fire alarm { f with agenda := a } := by
  rw [respond, h]

theorem respond_schedule (loop : Bool) (s : Session) (f : Safe) :
    f.respond (.schedule loop s) =
      { f with
        loop := loop
        keeper := (f.keeper.schedule id loop s f.agenda).1
        agenda := (f.keeper.schedule id loop s f.agenda).2 } := rfl

theorem respond_cancel (f : Safe) :
    f.respond .cancel =
      { f with
        keeper := { f.keeper with handle := none }
        agenda := f.agenda.cancelHeld f.keeper.handle } := by
  rw [respond, cancel, Keeper.cancel_eq]

theorem respond_flush (h : f.keeper.Serves path before asked f.disk) :
    ∃ written, f.respond .flush =
        { f with
          keeper := { f.keeper with handle := none, pending := none }
          agenda := f.agenda.cancelHeld f.keeper.handle
          disk := written } ∧
      (f.keeper.pending = none → written = f.disk) ∧
      { f.keeper with handle := none, pending := none }.Serves path before asked written := by
  obtain ⟨written, logs, fault, hflush, hdisk, -, hserves⟩ := h.flush f.agenda
  exact ⟨written, by rw [respond, flush, withWork, hflush], hdisk, hserves⟩

theorem respond_clear (h : f.keeper.Serves path before asked f.disk) :
    ∃ cleared, f.respond .clear =
        { f with
          keeper := { f.keeper with handle := none, pending := none }
          agenda := f.agenda.cancelHeld f.keeper.handle
          disk := cleared } ∧
      { f.keeper with handle := none, pending := none }.Serves path before (some .clear)
        cleared := by
  obtain ⟨cleared, hclear, hserves⟩ := h.clear f.agenda
  exact ⟨cleared, by rw [respond, clear, withWork, hclear], hserves⟩

theorem timers_wait (ms : Rat) (turns : Nat) (f : Safe) :
    ∃ t turns', t.call = some (.bell turns') ∧
      (f.respond (.wait ms turns)).agenda.timers.Perm (t :: f.agenda.timers) ∧
      (f.respond (.wait ms turns)).agenda.next = f.agenda.next + 1 := by
  rw [respond]
  split
  · exact ⟨_, turns, rfl, f.agenda.timers_set _ _, rfl⟩
  · exact ⟨_, turns - 1, rfl, f.agenda.timers_putOff _, rfl⟩

inductive Called (path : Path) (before : Tree) (asked : Option Request) (f : Safe) : Safe → Prop
  | nothing : f.agenda.advance? = none → Called path before asked f f
  | other {answer : Option KeeperAlarm} {a : Agenda KeeperAlarm} {underway : Nat} :
      f.agenda.advance? = some (answer, a) → answer ≠ some .save →
      Called path before asked f
        { f with keeper := { f.keeper with underway := underway }, agenda := a }
  | saved {a b : Agenda KeeperAlarm} {written : Tree} {underway : Nat} :
      f.agenda.advance? = some (some .save, a) →
      (b = a ∨ ∃ fault, b = (a.putOff (.alarm (.heard fault))).1) →
      (f.keeper.pending = none → written = f.disk) →
      { f.keeper with handle := none, pending := none, underway := underway }.Serves path before
        asked written →
      Called path before asked f
        { f with
          keeper := { f.keeper with handle := none, pending := none, underway := underway }
          agenda := b
          disk := written }

theorem called (h : f.keeper.Serves path before asked f.disk) :
    Called path before asked f (f.respond .call) := by
  cases hadvance : f.agenda.advance? with
  | none =>
    rw [respond_call_none hadvance]
    exact .nothing hadvance
  | some next =>
    obtain ⟨answer, a⟩ := next
    rcases answer with _ | _ | fault
    · rw [respond_call_pass hadvance]
      exact .other hadvance nofun
    · obtain ⟨b, written, logs, underway, hsave, hb, hdisk, hserves⟩ := h.save id a
      rw [respond_call_fire hadvance, fire, withWork, Keeper.answer, hsave]
      exact .saved hadvance hb hdisk hserves
    · rw [respond_call_fire hadvance]
      exact .other hadvance nofun

/-- What an event makes of the pending session and of the file. -/
inductive Deed (path : Path) (f : Safe) : Event → Safe → Prop
  | idle {e : Event} {g : Safe} : g.keeper.pending = f.keeper.pending → g.disk = f.disk →
      Deed path f e g
  | scheduled {loop : Bool} {s : Session} {g : Safe} : g.keeper.pending = some s →
      g.disk = f.disk → Deed path f (.schedule loop s) g
  | written {e : Event} {s : Session} {g : Safe} : f.keeper.pending = some s →
      g.keeper.pending = none → (s.isWritable = true → g.disk.read path = .ok s.bytes) →
      Deed path f e g
  | cleared {g : Safe} : g.keeper.pending = none →
      g.disk.read path = .error (.refused .notFound path) → Deed path f .clear g

theorem deed_of_serves (h : f.keeper.Serves path before asked f.disk)
    (hg : g.keeper.Serves path before asked g.disk) (hnone : g.keeper.pending = none)
    (hdisk : f.keeper.pending = none → g.disk = f.disk) : Deed path f e g := by
  cases hpending : f.keeper.pending with
  | none => exact .idle (hnone.trans hpending.symm) (hdisk hpending)
  | some s =>
    rw [h.eq_of_pending hpending] at hg
    exact .written hpending hnone (hg.read_of_keep hnone)

structure Sound (path : Path) (before : Tree) (asked : Option Request) (f : Safe) : Prop where
  serves : f.keeper.Serves path before asked f.disk
  numbered : f.agenda.Numbered
  sole : f.agenda.Sole .save f.keeper.handle

theorem Sound.called (h : Sound path before asked f) (hg : Called path before asked f g) :
    Sound path before asked g ∧ Deed path f .call g := by
  cases hg with
  | nothing _ => exact ⟨h, .idle rfl rfl⟩
  | @other answer a underway hadvance hother =>
    refine ⟨⟨h.serves.of_pending rfl rfl, ?_, ?_⟩, .idle rfl rfl⟩
    · obtain ⟨hnext, gone, halarms, -⟩ := Agenda.advance?_cases hadvance
      exact h.numbered.tail halarms hnext
    · cases answer with
      | none => exact h.sole.perm (Agenda.advance?_pass hadvance).1
      | some alarm =>
        obtain ⟨id, halarms, -⟩ := Agenda.advance?_fire hadvance
        exact h.sole.other halarms fun heq => hother (heq ▸ rfl)
  | @saved a b written underway hadvance hb hdisk hserves =>
    obtain ⟨id, halarms, hnext⟩ := Agenda.advance?_fire hadvance
    have hnumbered := (h.numbered.remove halarms hnext).1
    have hsole := (h.sole.gone h.numbered halarms hnext).2
    refine ⟨⟨hserves, ?_, ?_⟩, deed_of_serves h.serves hserves rfl hdisk⟩
    · rcases hb with rfl | ⟨fault, rfl⟩
      · exact hnumbered
      · exact hnumbered.putOff _
    · rcases hb with rfl | ⟨fault, rfl⟩
      · exact hsole
      · exact hsole.insert_other (a.alarms_putOff _) nofun

theorem Sound.respond (h : Sound path before asked f) (e : Event) :
    Sound path before (e.request?.or asked) (f.respond e) ∧ Deed path f e (f.respond e) := by
  cases e with
  | schedule loop s =>
    have hserves := h.serves.schedule id loop s f.agenda
    have hcancelled := h.numbered.cancelHeld f.keeper.handle
    have hnone := h.sole.cancelHeld_self
    rw [respond_schedule, Keeper.schedule_eq] at *
    cases loop with
    | false => exact ⟨⟨hserves, hcancelled, hnone⟩, .scheduled rfl rfl⟩
    | true =>
      exact ⟨⟨hserves, hcancelled.set _ _, hnone.insert (Agenda.alarms_set _ _ _)⟩,
        .scheduled rfl rfl⟩
  | cancel =>
    rw [respond_cancel]
    exact ⟨⟨h.serves.of_pending rfl rfl, h.numbered.cancelHeld _, h.sole.cancelHeld_self⟩,
      .idle rfl rfl⟩
  | flush =>
    obtain ⟨written, hflush, hdisk, hserves⟩ := respond_flush h.serves
    rw [hflush]
    exact ⟨⟨hserves, h.numbered.cancelHeld _, h.sole.cancelHeld_self⟩,
      deed_of_serves h.serves hserves rfl hdisk⟩
  | clear =>
    obtain ⟨cleared, hclear, hserves⟩ := respond_clear h.serves
    rw [hclear]
    exact ⟨⟨hserves, h.numbered.cancelHeld _, h.sole.cancelHeld_self⟩,
      .cleared rfl hserves.of_clear.2⟩
  | wait ms turns =>
    obtain ⟨t, turns', hcall, htimers, hnext⟩ := f.timers_wait ms turns
    have halarms : f.agenda.alarms.Perm (f.respond (.wait ms turns)).agenda.alarms := by
      have hmore := htimers.symm.filterMap Timer.alarm?
      rwa [List.filterMap_cons, Timer.alarm?, hcall] at hmore
    exact ⟨⟨h.serves, h.numbered.perm halarms (by omega), h.sole.perm halarms⟩, .idle rfl rfl⟩
  | call => exact h.called (Safe.called h.serves)

theorem lastRequest_concat (es : List Event) (e : Event) :
    lastRequest (es ++ [e]) = e.request?.or (lastRequest es) := by
  cases e <;> simp [lastRequest, Event.request?]

theorem Sound.run (h : Sound path before asked f) (es : List Event) :
    Sound path before ((lastRequest es).or asked) (f.run es) := by
  -- from the last event backwards, since the last request is the one that counts
  induction es using List.reverseRecOn with
  | nil => exact h
  | append_singleton es e ih =>
    rw [run_concat, lastRequest_concat, Option.or_assoc]
    exact (ih.respond e).1

structure Timed (ms : Rat) (f : Safe) : Prop where
  delay : f.keeper.delay = .finite ms
  orderly : f.agenda.Orderly

theorem Timed.respond (h : Timed ms f) (hserves : f.keeper.Serves path before asked f.disk)
    (e : Event) : Timed ms (f.respond e) := by
  have hcancelled := h.orderly.cancelHeld f.keeper.handle
  cases e with
  | schedule loop s =>
    rw [respond_schedule, Keeper.schedule_eq]
    cases loop with
    | false => exact ⟨h.delay, hcancelled⟩
    | true => exact ⟨h.delay, h.delay ▸ hcancelled.set ms _⟩
  | cancel =>
    rw [respond_cancel]
    exact ⟨h.delay, hcancelled⟩
  | flush =>
    obtain ⟨written, hflush, -⟩ := respond_flush hserves
    rw [hflush]
    exact ⟨h.delay, hcancelled⟩
  | clear =>
    obtain ⟨cleared, hclear, -⟩ := respond_clear hserves
    rw [hclear]
    exact ⟨h.delay, hcancelled⟩
  | wait ms' turns =>
    rw [Safe.respond]
    split
    · exact ⟨h.delay, h.orderly.set ms' _⟩
    · exact ⟨h.delay, h.orderly.putOff _⟩
  | call =>
    generalize hg : f.respond .call = g
    cases hg ▸ called hserves with
    | nothing _ => exact h
    | other hadvance _ => exact ⟨h.delay, (h.orderly.advance? hadvance).1⟩
    | saved hadvance hb _ _ =>
      have ha := (h.orderly.advance? hadvance).1
      rcases hb with rfl | ⟨fault, rfl⟩
      · exact ⟨h.delay, ha⟩
      · exact ⟨h.delay, ha.putOff _⟩

theorem Timed.run (h : Timed ms start) (hsound : Sound path before asked start)
    (es : List Event) : Timed ms (start.run es) := by
  induction es using List.reverseRecOn with
  | nil => exact h
  | append_singleton es e ih =>
    rw [run_concat]
    exact ih.respond (hsound.run es).serves e

structure Awaits (s : Session) (moment ms : Rat) (f : Safe) : Prop where
  pending : f.keeper.pending = some s
  held : f.keeper.handle ≠ none
  due : f.agenda.DueAt .save (moment + ms)
  since : moment ≤ f.agenda.now
  notOver : f.agenda.now ≤ moment + span ms

theorem le_add_span (moment ms : Rat) :
    moment ≤ moment + span ms ∧ moment + ms ≤ moment + span ms := by
  unfold span
  split
  · constructor <;> grind
  · constructor <;> grind

theorem Awaits.le_add_span (h : Awaits s moment ms f) {now : Rat}
    (hnow : now = f.agenda.now ∨ now ≤ moment + ms) : now ≤ moment + span ms := by
  rcases hnow with rfl | hnow
  · exact h.notOver
  · exact Rat.le_trans hnow (Safe.le_add_span moment ms).2

theorem Awaits.wait (h : Awaits s moment ms f) (ms' : Rat) (turns : Nat) :
    Awaits s moment ms (f.respond (.wait ms' turns)) := by
  obtain ⟨t, turns', hcall, htimers, -⟩ := f.timers_wait ms' turns
  have hnow : (f.respond (.wait ms' turns)).agenda.now = f.agenda.now := by
    rw [respond]
    split <;> rfl
  exact ⟨h.pending, h.held, h.due.insert_other htimers (by simp [hcall]), hnow ▸ h.since,
    hnow ▸ h.notOver⟩

theorem Awaits.called (h : Awaits s moment ms f) (hsound : Sound path before asked f)
    (htimed : Timed ms f) (hg : Called path before asked f g) :
    Awaits s moment ms g ∨
      (g.keeper.pending = none ∧ g.agenda.now = moment + span ms) := by
  obtain ⟨id, hid⟩ := Option.ne_none_iff_exists'.1 h.held
  have hmem := (hsound.sole id).2 hid
  cases hg with
  | nothing _ => exact .inl h
  | @other answer a underway hadvance hother =>
    obtain ⟨hle, hlate, -⟩ := htimed.orderly.now_advance? h.due hmem hadvance
    exact .inl ⟨h.pending, h.held, h.due.advance? hadvance, Rat.le_trans h.since hle,
      h.le_add_span hlate⟩
  | @saved a b written underway hadvance hb hdisk hserves =>
    obtain ⟨hle, hlate, hcome⟩ := htimed.orderly.now_advance? h.due hmem hadvance
    have hnow : b.now = a.now := by rcases hb with rfl | ⟨fault, rfl⟩ <;> rfl
    refine .inr ⟨rfl, hnow.trans (Rat.le_antisymm (h.le_add_span hlate) ?_)⟩
    -- It goes off neither before it is due nor before it was set.
    have hcame := hcome rfl
    have hset := Rat.le_trans h.since hle
    unfold span
    split
    · grind
    · exact hcame

theorem Awaits.respond (h : Awaits s moment ms f) (hsound : Sound path before asked f)
    (htimed : Timed ms f) (hpasses : e.Passes) :
    Awaits s moment ms (f.respond e) ∨
      (e = .call ∧ (f.respond e).keeper.pending = none ∧
        (f.respond e).agenda.now = moment + span ms) := by
  cases e with
  | wait ms' turns => exact .inl (h.wait ms' turns)
  | call => exact (h.called hsound htimed (Safe.called hsound.serves)).imp_right (⟨rfl, ·⟩)
  | schedule | cancel | flush | clear => exact hpasses.elim

theorem Awaits.run (h : Awaits s moment ms f) (hsound : Sound path before asked f)
    (htimed : Timed ms f) (hpasses : ∀ e ∈ es, e.Passes) :
    (f.run es).keeper.pending = none ∨ Awaits s moment ms (f.run es) := by
  induction es using List.reverseRecOn with
  | nil => exact .inr h
  | append_singleton es e ih =>
    obtain ⟨hes, he⟩ := List.forall_mem_append.1 hpasses
    have he := List.forall_mem_singleton.1 he
    rw [run_concat]
    rcases ih hes with hnone | hawaits
    · cases ((hsound.run es).respond e).2 with
      | idle hpending _ => exact .inl (hpending.trans hnone)
      | scheduled _ _ => exact he.elim
      | written _ hgone _ => exact .inl hgone
      | cleared hgone _ => exact .inl hgone
    · rcases hawaits.respond (hsound.run es) (htimed.run hsound es) he with hawaits | ⟨_, hgone, _⟩
      · exact .inr hawaits
      · exact .inl hgone

theorem Awaits.ends (h : Awaits s moment ms f) (hsound : Sound path before asked f)
    (htimed : Timed ms f) :
    ∃ n, (f.run (List.replicate n .call)).keeper.pending = none ∧
      (f.run (List.replicate n .call)).agenda.now = moment + span ms := by
  obtain ⟨load, hload⟩ : ∃ load, f.agenda.load (fun _ => 1) = load := ⟨_, rfl⟩
  induction load using Nat.strongRecOn generalizing f with
  | ind load ih =>
    obtain ⟨id, hid⟩ := Option.ne_none_iff_exists'.1 h.held
    have halarms := List.ne_nil_of_mem ((hsound.sole id).2 hid)
    obtain ⟨answer, a, hadvance⟩ := Agenda.advance?_isSome htimed.orderly.timely halarms
    rcases h.respond hsound htimed (e := .call) trivial with hawaits | ⟨-, hgone⟩
    · have hless : (f.respond .call).agenda.load (fun _ => 1) < load := by
        have hpending := hawaits.pending
        generalize hg : f.respond .call = g at hpending ⊢
        cases hg ▸ Safe.called hsound.serves with
        | nothing hnothing => cases hnothing.symm.trans hadvance
        | @other answer a underway hother _ =>
          have hstep := Agenda.advance?_load (fun _ => 1) hother
          have hcost : answer.elim 1 (fun _ => 1) = 1 := by cases answer <;> rfl
          show a.load (fun _ => 1) < load
          omega
        | saved _ _ _ _ => cases hpending
      obtain ⟨n, hn⟩ := ih _ hless hawaits (hsound.respond .call).1
        (htimed.respond hsound.serves .call) rfl
      exact ⟨n + 1, hn⟩
    · exact ⟨1, hgone⟩

end TapeLab.Safe
