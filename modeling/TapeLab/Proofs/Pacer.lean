import TapeLab.Pacer
import TapeLab.Proofs.Agenda.Numbers

/-!
What a pacer keeps in order. It `Holds` the timer of the next tick if it knows its number. If there
is no other timer for a tick, cancelling, pausing and resetting leave none, and a tick that begins
has left none. A pacer is `Coherent` if it has a current run just while it is running, and if every
other run has ended once.
-/

namespace TapeLab.Pacer

variable {α : Type} {only : Prop} {tick : α} {p q : Pacer} {a b : Agenda α} {phase : Phase}

/-- The timer of the next tick is still to fire; if `only` holds, no other timer is for a tick. -/
structure Holds (only : Prop) (tick : α) (p : Pacer) (a : Agenda α) : Prop where
  numbered : a.Numbered
  held : a.Held tick p.handle
  sole : only → a.Sole tick p.handle

theorem holds_new (only : Prop) (tick : α) (delay : Int) : (new delay).Holds only tick .empty :=
  ⟨Agenda.numbered_empty, Agenda.held_none _ _, fun _ => Agenda.sole_empty tick⟩

theorem cancel_eq (p : Pacer) (a : Agenda α) :
    p.cancel a = ({ p with handle := none }, a.cancelHeld p.handle) := by
  obtain ⟨phase, delay, handle, current, runs, endings⟩ := p
  cases handle <;> rfl

theorem pause_eq (p : Pacer) (a : Agenda α) :
    p.pause a = (if p.running then { p with handle := none }.stop .idle
      else { p with handle := none }, a.cancelHeld p.handle) := by
  unfold pause
  rw [cancel_eq]
  rfl

theorem reset_eq (p : Pacer) (a : Agenda α) :
    p.reset a = ({ p with handle := none }.stop .idle, a.cancelHeld p.handle) := by
  unfold reset
  rw [cancel_eq]

def begun (p : Pacer) : Pacer :=
  { p with phase := .running, current := some p.runs, runs := p.runs + 1 }

theorem start?_eq (tick : α) (halted : Bool) (p : Pacer) (a : Agenda α) :
    p.start? tick halted a =
      if p.phase = .idle ∧ halted = false then some (p.begun.schedule tick a) else none := by
  unfold start?
  by_cases hphase : p.phase = .idle
  · cases halted <;> simp [hphase, begun]
  · simp [hphase]

@[simp] theorem handle_stop (p : Pacer) (phase : Phase) : (p.stop phase).handle = p.handle := rfl

@[simp] theorem handle_pause (p : Pacer) (a : Agenda α) : (p.pause a).1.handle = none := by
  rw [pause_eq]
  split <;> rfl

@[simp] theorem handle_reset (p : Pacer) (a : Agenda α) : (p.reset a).1.handle = none := by
  rw [reset_eq, handle_stop]

theorem running_pause (p : Pacer) (a : Agenda α) : (p.pause a).1.running = false := by
  rw [pause_eq]
  cases h : p.running with
  | true => rfl
  | false => exact h

theorem Holds.cancelHeld (h : p.Holds only tick a) (hnone : q.handle = none) :
    q.Holds only tick (a.cancelHeld p.handle) where
  numbered := h.numbered.cancelHeld _
  held := hnone ▸ Agenda.held_none _ _
  sole ho := hnone ▸ (h.sole ho).cancelHeld_self

theorem Holds.pause (h : p.Holds only tick a) : (p.pause a).1.Holds only tick (p.pause a).2 := by
  have hagenda : (p.pause a).2 = a.cancelHeld p.handle := by rw [pause_eq]
  rw [hagenda]
  exact h.cancelHeld (handle_pause p a)

theorem Holds.reset (h : p.Holds only tick a) : (p.reset a).1.Holds only tick (p.reset a).2 := by
  rw [reset_eq]
  exact h.cancelHeld rfl

theorem Holds.schedule (h : p.Holds only tick a) (hnone : only → p.handle = none) :
    (p.schedule tick a).1.Holds only tick (p.schedule tick a).2 where
  numbered := h.numbered.set (.finite p.delay) tick
  held := Agenda.held_insert (a.alarms_set (.finite p.delay) tick)
  sole ho := (hnone ho ▸ h.sole ho).insert (a.alarms_set (.finite p.delay) tick)

theorem Holds.fire (h : p.Holds only tick a) {id : Nat}
    (halarms : a.alarms.Perm ((id, tick) :: b.alarms)) (hnext : b.next = a.next) :
    (only → p.handle = some id) ∧ p.beginTick.Holds only tick b :=
  ⟨fun ho => ((h.sole ho).gone h.numbered halarms hnext).1,
    (h.numbered.remove halarms hnext).1, Agenda.held_none _ _,
    fun ho => ((h.sole ho).gone h.numbered halarms hnext).2⟩

theorem Holds.insert_other (h : p.Holds only tick a) {id : Nat} {x : α}
    (halarms : b.alarms.Perm ((id, x) :: a.alarms)) (hne : tick ≠ x) (hb : b.Numbered) :
    p.Holds only tick b :=
  ⟨hb, h.held.insert_other halarms, fun ho => (h.sole ho).insert_other halarms hne⟩

theorem Holds.other (h : p.Holds only tick a) {id : Nat} {x : α}
    (halarms : a.alarms.Perm ((id, x) :: b.alarms)) (hnext : b.next = a.next) (hne : tick ≠ x) :
    p.Holds only tick b :=
  ⟨(h.numbered.remove halarms hnext).1, h.held.other halarms hne,
    fun ho => (h.sole ho).other halarms hne⟩

theorem Holds.cancel_other (h : p.Holds only tick a) {other : Option Nat}
    (hother : a.Elsewhere tick other) : p.Holds only tick (a.cancelHeld other) :=
  ⟨h.numbered.cancelHeld _, h.held.cancelHeld_other hother,
    fun ho => (h.sole ho).cancelHeld_other hother⟩

structure Coherent (p : Pacer) : Prop where
  current : p.current.isSome = p.running
  told : (p.current.toList ++ p.endings.map Ending.run).Perm (List.range p.runs)

theorem coherent_new (delay : Int) : (new delay).Coherent := ⟨rfl, .refl _⟩

theorem Coherent.current_eq_none (h : p.Coherent) (hidle : p.running = false) : p.current = none :=
  Option.isSome_eq_false_iff.1 (h.current.trans hidle) |> Option.isNone_iff_eq_none.1

theorem Coherent.handle (h : p.Coherent) (handle : Option Nat) :
    { p with handle := handle }.Coherent := ⟨h.current, h.told⟩

theorem Coherent.stop (h : p.Coherent) (hphase : phase ≠ .running) : (p.stop phase).Coherent where
  current := by
    cases phase with
    | running => exact absurd rfl hphase
    | _ => rfl
  told := by
    have htold := h.told
    unfold Pacer.stop
    cases hcurrent : p.current with
    | none => rwa [hcurrent] at htold
    | some run => rwa [hcurrent] at htold

theorem Coherent.begun (h : p.Coherent) (hidle : p.running = false) : p.begun.Coherent where
  current := rfl
  told := by
    have htold := h.told
    rw [h.current_eq_none hidle] at htold
    show (p.runs :: p.endings.map Ending.run).Perm (List.range (p.runs + 1))
    rw [List.range_succ]
    exact (htold.cons p.runs).trans (List.perm_append_singleton _ _).symm

theorem Coherent.pause (h : p.Coherent) (a : Agenda α) : (p.pause a).1.Coherent := by
  rw [pause_eq]
  split
  · exact (h.handle none).stop (by simp)
  · exact h.handle none

theorem Coherent.reset (h : p.Coherent) (a : Agenda α) : (p.reset a).1.Coherent := by
  rw [reset_eq]
  exact (h.handle none).stop (by simp)

theorem Coherent.count_endings (h : p.Coherent) {run : Nat} (hrun : run < p.runs) :
    (p.endings.map Ending.run).count run = if p.current = some run then 0 else 1 := by
  have hcount := h.told.count_eq run
  rw [List.count_append,
    List.count_eq_one_of_mem List.nodup_range (List.mem_range.2 hrun)] at hcount
  cases hcurrent : p.current with
  | none => simpa [hcurrent] using hcount
  | some current =>
    rw [hcurrent, Option.toList_some, List.count_singleton] at hcount
    by_cases heq : current = run
    · simp only [heq, beq_self_eq_true, if_true] at hcount ⊢
      omega
    · simp only [beq_iff_eq, heq, if_false, Option.some_inj] at hcount ⊢
      omega

theorem Coherent.ending?_current (h : p.Coherent) {run : Nat} (hcurrent : p.current = some run) :
    p.ending? run = none := by
  have hnodup := h.told.nodup_iff.2 List.nodup_range
  rw [hcurrent, Option.toList_some, List.singleton_append, List.nodup_cons] at hnodup
  refine List.find?_eq_none.2 fun e he heq => hnodup.1 ?_
  exact List.mem_map.2 ⟨e, he, by simpa using heq⟩

theorem ending?_stop {run : Nat} (hcurrent : p.current = some run) :
    (p.stop phase).ending? run = some ⟨run, phase⟩ := by
  simp [ending?, stop, hcurrent]

end TapeLab.Pacer
