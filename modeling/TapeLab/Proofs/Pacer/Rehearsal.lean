import TapeLab.Pacer.Rehearsal
import TapeLab.Proofs.Pacer

/-!
Rehearsals in order. The pacer of a rehearsal holds the timer of its next tick. Waiters set timers
of their own and cancel no other ones, so they leave the pacer and its timer alone; and so do the
pacer's operations, which the step may call itself.
-/

namespace TapeLab.Rehearsal

variable {only : Prop} {r s : Rehearsal} {cue : Cue}

def limit? (r : Rehearsal) (i : Nat) : Option Nat := r.waiters[i]?.bind Waiter.limit

/-- The pacer holds the timer of the next tick, and knows of none while no run is going; if `only`
holds, there is no other. No waiter's limit is a timer for a tick. -/
structure Orderly (only : Prop) (r : Rehearsal) : Prop where
  holds : r.pacer.Holds only Cue.tick r.agenda
  idle : only → r.pacer.running = false → r.pacer.handle = none
  limits : ∀ i, r.agenda.Elsewhere Cue.tick (r.limit? i)

theorem orderly_new (only : Prop) (delay : Int) (halted loop : Bool) :
    (new delay halted loop).Orderly only :=
  ⟨Pacer.holds_new only _ delay, fun _ _ => rfl, fun _ => Agenda.elsewhere_none _ _⟩

@[simp] theorem limit?_setAttention (i j : Nat) (attention : Attention) (r : Rehearsal) :
    (r.setAttention i attention).limit? j = r.limit? j := by
  rw [setAttention, limit?, limit?, List.getElem?_modify]
  by_cases hij : i = j
  · cases r.waiters[j]? <;> simp [hij]
  · cases r.waiters[j]? <;> simp [hij]

theorem Orderly.setAttention (h : r.Orderly only) (i : Nat) (attention : Attention) :
    (r.setAttention i attention).Orderly only :=
  ⟨h.holds, h.idle, fun j => limit?_setAttention i j attention r ▸ h.limits j⟩

theorem Orderly.putOff (h : r.Orderly only) (hne : Cue.tick ≠ cue) :
    (r.putOff cue).Orderly only where
  holds := h.holds.insert_other (r.agenda.alarms_putOff cue) hne (h.holds.numbered.putOff cue)
  idle := h.idle
  limits i := (h.limits i).onward (Agenda.onward_insert (r.agenda.alarms_putOff cue) rfl)

theorem Orderly.dismiss (h : r.Orderly only) (i : Nat) (phase : Option Phase) (turns : Nat) :
    (r.dismiss i phase turns).Orderly only :=
  (h.setAttention i .leaving).putOff (by simp)

theorem Orderly.release (h : r.Orderly only) (i : Nat) : (r.release i).Orderly only := by
  unfold Rehearsal.release
  split
  · split
    · exact h.dismiss i _ 4
    · exact h
  · exact h

theorem Orderly.releaseAll (h : r.Orderly only) : r.releaseAll.Orderly only :=
  List.foldlRecOn _ _ h fun _ hr i _ => hr.release i

theorem Orderly.addWaiter (h : r.Orderly only) : r.addWaiter.Orderly only := by
  have hlimit (i : Nat) :
      limit? { r with waiters := r.waiters ++ [⟨.fresh, none⟩] } i = r.limit? i := by
    unfold limit?
    rw [List.getElem?_append]
    split
    · rfl
    · next hi =>
      rw [List.getElem?_eq_none (Nat.le_of_not_lt hi)]
      cases i - r.waiters.length <;> rfl
  have hwaiters : Orderly only { r with waiters := r.waiters ++ [⟨.fresh, none⟩] } :=
    ⟨h.holds, h.idle, fun i => hlimit i ▸ h.limits i⟩
  exact hwaiters.putOff (by simp)

theorem Orderly.arrive (h : r.Orderly only) (i : Nat) : (r.arrive i).Orderly only := by
  obtain ⟨a, ha⟩ : ∃ a, a = (r.agenda.set (.finite PacedClockwork.longestWait)
    (.alarm (.giveUp i))).1 := ⟨_, rfl⟩
  have hset : a.alarms.Perm ((r.agenda.next, .giveUp i) :: r.agenda.alarms) :=
    ha ▸ r.agenda.alarms_set _ _
  have hnext : a.next = r.agenda.next + 1 := ha ▸ rfl
  have hnumbered := h.holds.numbered.insert hset hnext
  have hlimit (j : Nat) : a.Elsewhere Cue.tick (limit? { r with
      waiters := r.waiters.modify i fun w => { w with limit := some r.agenda.next } } j) := by
    have hold := (h.limits j).onward (Agenda.onward_insert hset hnext)
    have hnew : a.Elsewhere Cue.tick (some r.agenda.next) :=
      (Agenda.held_insert hset).elsewhere hnumbered (by simp)
    unfold limit? at hold ⊢
    rw [List.getElem?_modify]
    by_cases hij : i = j
    · cases hj : r.waiters[j]? with
      | none => simpa [hj] using hold
      | some w => simpa [hij] using hnew
    · simpa [hij] using hold
  have hwaiting : Orderly only { r with
      agenda := a
      waiters := r.waiters.modify i fun w => { w with limit := some r.agenda.next } } :=
    ⟨h.holds.insert_other hset (by simp) hnumbered, h.idle, hlimit⟩
  unfold Rehearsal.arrive
  rw [ha] at hwaiting
  exact hwaiting.putOff (by simp)

theorem Orderly.look (h : r.Orderly only) (i : Nat) : (r.look i).Orderly only := by
  unfold Rehearsal.look
  split
  · exact h.dismiss i _ 2
  · exact h.setAttention i _

theorem Orderly.tell (h : r.Orderly only) (i : Nat) (phase : Option Phase) :
    (r.tell i phase).Orderly only := by
  have hcancel : ((r.limit? i).map r.agenda.cancel).getD r.agenda =
      r.agenda.cancelHeld (r.limit? i) := by
    cases r.limit? i <;> rfl
  unfold Rehearsal.tell
  refine Orderly.setAttention ?_ i _
  show Orderly only { r with agenda := ((r.limit? i).map r.agenda.cancel).getD r.agenda }
  rw [hcancel]
  exact ⟨h.holds.cancel_other (h.limits i), h.idle,
    fun j => (h.limits j).onward (r.agenda.onward_cancelHeld _)⟩

theorem Orderly.giveUp (h : r.Orderly only) (i : Nat) : (r.giveUp i).Orderly only := by
  unfold Rehearsal.giveUp
  split
  · exact h.dismiss i none 4
  · exact h

theorem Orderly.withPair (h : r.Orderly only) {p : Pacer × Agenda Cue}
    (hholds : p.1.Holds only Cue.tick p.2)
    (hidle : only → p.1.running = false → p.1.handle = none) (honward : r.agenda.Onward p.2) :
    (r.withPair p).Orderly only := by
  have hpair : Orderly only { r with pacer := p.1, agenda := p.2 } :=
    ⟨hholds, hidle, fun i => (h.limits i).onward honward⟩
  exact hpair.releaseAll

theorem start?_eq (r : Rehearsal) :
    r.start? = if r.pacer.phase = .idle ∧ r.halted = false then
        if r.loop then some (r.withPair (r.pacer.begun.schedule .tick r.agenda), true) else none
      else some (r, false) := by
  unfold start?
  rw [Pacer.start?_eq]
  by_cases hfree : r.pacer.phase = .idle ∧ r.halted = false
  · rw [if_pos hfree, if_pos hfree]
  · rw [if_neg hfree, if_neg hfree]

theorem act_start (r : Rehearsal) :
    r.act .start = if r.pacer.phase = .idle ∧ r.halted = false ∧ r.loop = true then
      r.withPair (r.pacer.begun.schedule .tick r.agenda) else r := by
  show (r.start?.map Prod.fst).getD r = _
  rw [start?_eq]
  by_cases hfree : r.pacer.phase = .idle ∧ r.halted = false
  · cases hloop : r.loop <;> simp [hfree.1, hfree.2]
  · rw [if_neg hfree, if_neg fun hall => hfree ⟨hall.1, hall.2.1⟩]
    rfl

theorem Orderly.start (h : r.Orderly only) : (r.act .start).Orderly only := by
  rw [act_start]
  split
  · next hfree =>
    have hidle : r.pacer.running = false := by simp [Pacer.running, hfree.1]
    have hbegun : r.pacer.begun.Holds only Cue.tick r.agenda :=
      ⟨h.holds.numbered, h.holds.held, h.holds.sole⟩
    exact h.withPair (hbegun.schedule fun ho => h.idle ho hidle)
      (fun _ hrunning => by cases hrunning) (Agenda.onward_insert (r.agenda.alarms_set _ _) rfl)
  · exact h

theorem Orderly.act (h : r.Orderly only) (x : PacerAction) : (r.act x).Orderly only := by
  cases x with
  | start => exact h.start
  | pause =>
    refine h.withPair h.holds.pause (fun _ _ => Pacer.handle_pause _ _) ?_
    rw [Pacer.pause_eq]
    exact r.agenda.onward_cancelHeld _
  | reset =>
    refine h.withPair h.holds.reset (fun _ _ => Pacer.handle_reset _ _) ?_
    rw [Pacer.reset_eq]
    exact r.agenda.onward_cancelHeld _
  | cancel =>
    refine h.withPair ?_ ?_ ?_
    · rw [Pacer.cancel_eq]
      exact h.holds.cancelHeld rfl
    · intro _ _
      rw [Pacer.cancel_eq]
    · rw [Pacer.cancel_eq]
      exact r.agenda.onward_cancelHeld _

theorem Orderly.call (h : r.Orderly only) (c : ScriptedCall) : (r.call c).Orderly only := by
  have hbegin : Orderly only { r with
      calls := r.calls + 1
      ticks := r.agenda.now :: r.ticks
      halted := r.halted || c.halts } := ⟨h.holds, h.idle, h.limits⟩
  exact List.foldlRecOn _ _ hbegin fun _ hr x _ => hr.act x

structure Spares (r s : Rehearsal) : Prop where
  pacer : s.pacer = r.pacer
  halted : s.halted = r.halted
  loop : s.loop = r.loop
  alarms : r.agenda.alarms ⊆ s.agenda.alarms

theorem Spares.release (h : Spares r s) (i : Nat) : Spares r (s.release i) := by
  unfold Rehearsal.release
  split
  · split
    · next e _ =>
      refine ⟨h.pacer, h.halted, h.loop, fun p hp => ?_⟩
      have hput := s.agenda.alarms_putOff (.tell i (some e.phase) 3)
      exact hput.mem_iff.2 (List.mem_cons_of_mem _ (h.alarms hp))
    · exact h
  · exact h

theorem spares_releaseAll (r : Rehearsal) : Spares r r.releaseAll :=
  List.foldlRecOn _ _ ⟨rfl, rfl, rfl, fun _ hp => hp⟩ fun _ hs i _ => hs.release i

theorem spares_withPair (r : Rehearsal) (p : Pacer × Agenda Cue) :
    Spares { r with pacer := p.1, agenda := p.2 } (r.withPair p) := spares_releaseAll _

end TapeLab.Rehearsal
