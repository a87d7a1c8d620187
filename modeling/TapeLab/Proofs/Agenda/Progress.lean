import TapeLab.Proofs.Agenda.Numbers

/-!
Progress. Every call that is carried out takes something off the load of an agenda, and as long as
the time of every timer will come, there is a call to carry out while an alarm is left. So whoever
has the patience for the whole load has all alarms answered, unless new ones are set.
-/

namespace TapeLab.Agenda

variable {α : Type} {a b : Agenda α} {cost : α → Nat} {answer : Option α} {id : Nat}

theorem calls_perm (cost : α → Nat) {timers others : List (Timer α)} (h : timers.Perm others) :
    timers.foldr (fun t calls => t.calls cost + calls) 0 =
      others.foldr (fun t calls => t.calls cost + calls) 0 :=
  h.foldr_eq' (fun t _ u _ _ => Nat.add_left_comm (u.calls cost) (t.calls cost) _) 0

theorem load_cons {t : Timer α} (cost : α → Nat) (h : b.timers.Perm (t :: a.timers)) :
    b.load cost = t.calls cost + a.load cost := calls_perm cost h

theorem Keeps.load_le (h : Keeps a b) (cost : α → Nat) : b.load cost ≤ a.load cost := by
  obtain ⟨gone, hgone⟩ := h.timers
  have hload : a.load cost =
      (gone ++ b.timers).foldr (fun t calls => t.calls cost + calls) 0 := calls_perm cost hgone
  rw [hload]
  clear hgone hload
  induction gone with
  | nil => exact Nat.le_refl _
  | cons t gone ih => exact Nat.le_trans ih (Nat.le_add_left _ _)

theorem load_set (a : Agenda α) (cost : α → Nat) (delay : Time) (x : α) :
    (a.set delay (.alarm x)).1.load cost = cost x + a.load cost :=
  load_cons cost (a.timers_set delay (.alarm x))

theorem load_putOff (a : Agenda α) (cost : α → Nat) (x : α) :
    (a.putOff (.alarm x)).1.load cost = cost x + a.load cost :=
  load_cons cost (a.timers_putOff (.alarm x))

theorem calls_withdraw (hcost : ∀ x, 0 < cost x) (id : Nat) (t : Timer α) :
    (t.withdraw id).calls cost ≤ t.calls cost := by
  obtain ⟨number, due, call⟩ := t
  unfold Timer.withdraw
  split
  · rcases call with _ | x | turns
    · exact Nat.le_refl 1
    · exact hcost x
    · exact Nat.succ_le_succ (Nat.zero_le turns)
  · exact Nat.le_refl _

theorem load_cancel (hcost : ∀ x, 0 < cost x) (a : Agenda α) (id : Nat) :
    (a.cancel id).load cost ≤ a.load cost := by
  unfold load
  rw [timers_cancel, List.foldr_map]
  induction a.timers with
  | nil => exact Nat.le_refl 0
  | cons t timers ih => exact Nat.add_le_add (calls_withdraw hcost id t) ih

theorem load_cancelHeld (hcost : ∀ x, 0 < cost x) (a : Agenda α) (held : Option Nat) :
    (a.cancelHeld held).load cost ≤ a.load cost := by
  cases held with
  | none => exact Nat.le_refl _
  | some id => exact load_cancel hcost a id

theorem load_perform (cost : α → Nat) (a : Agenda α) (t : Timer α) :
    (a.perform t).2.load cost + (a.perform t).1.elim 1 cost ≤ t.calls cost + a.load cost := by
  unfold perform Timer.calls
  split
  · next h => simp only [h, Option.elim_none]; omega
  · next h => simp only [h, Option.elim_some]; omega
  · next h =>
    have hload : load cost { a with rung := t.id :: a.rung } = a.load cost := rfl
    simp only [h, hload, Option.elim_none]
    omega
  · next turns h =>
    have hcalls : Timer.calls cost { t with call := some (.bell turns) } = turns + 1 := rfl
    rw [load_cons cost (a.timers_later { t with call := some (.bell turns) }), hcalls]
    simp only [h, Option.elim_none]
    omega

theorem advance?_load (cost : α → Nat) (h : a.advance? = some (answer, b)) :
    b.load cost + answer.elim 1 cost ≤ a.load cost := by
  obtain ⟨c, t, rest, hkeeps, hready, hpair⟩ := advance?_eq_some h
  have hperform := load_perform cost { c with ready := rest } t
  rw [hpair] at hperform
  have hc : c.load cost = t.calls cost + load cost { c with ready := rest } :=
    load_cons cost (by simp [timers, hready])
  exact Nat.le_trans hperform (hc ▸ hkeeps.load_le cost)

/-- The time of every timer will come. -/
def Timely (a : Agenda α) : Prop := ∀ t ∈ a.timers, ∃ ms, t.due = .finite ms

theorem Timely.keeps (h : a.Timely) (hkeeps : Keeps a b) : b.Timely := by
  obtain ⟨gone, hgone⟩ := hkeeps.timers
  exact fun t ht => h t (hgone.mem_iff.2 (List.mem_append_right _ ht))

theorem Timely.cons (h : a.Timely) {t : Timer α} (htimers : b.timers.Perm (t :: a.timers))
    {ms : Rat} (hdue : t.due = .finite ms) : b.Timely := by
  intro u hu
  rcases List.mem_cons.1 (htimers.mem_iff.1 hu) with rfl | hu
  · exact ⟨ms, hdue⟩
  · exact h u hu

theorem Timely.set (h : a.Timely) (ms : Rat) (call : Call α) : (a.set (.finite ms) call).1.Timely :=
  h.cons (a.timers_set (.finite ms) call) rfl

theorem Timely.putOff (h : a.Timely) (call : Call α) : (a.putOff call).1.Timely :=
  h.cons (a.timers_putOff call) rfl

theorem Timely.cancelHeld (h : a.Timely) (held : Option Nat) : (a.cancelHeld held).Timely := by
  cases held with
  | none => exact h
  | some id =>
    intro t ht
    rw [Agenda.cancelHeld, timers_cancel] at ht
    obtain ⟨u, hu, rfl⟩ := List.mem_map.1 ht
    obtain ⟨ms, hms⟩ := h u hu
    refine ⟨ms, ?_⟩
    rw [← hms, Timer.withdraw]
    split <;> rfl

theorem Timely.advance? (h : a.Timely) (hadvance : a.advance? = some (answer, b)) : b.Timely := by
  obtain ⟨c, t, rest, hkeeps, hready, hpair⟩ := advance?_eq_some hadvance
  have hc := h.keeps hkeeps
  have hrest : Timely { c with ready := rest } := fun u hu => hc u (by
    simp only [timers, hready, List.cons_append] at hu ⊢
    exact List.mem_cons_of_mem _ hu)
  obtain ⟨ms, hms⟩ := hc t (by simp [timers, hready])
  obtain rfl : (perform { c with ready := rest } t).2 = b := congrArg Prod.snd hpair
  unfold perform
  split
  · exact hrest
  · exact hrest
  · exact hrest
  · next turns _ =>
    exact hrest.cons (timers_later _ { t with call := some (.bell turns) }) hms

theorem ready_takeDue (count : Nat) (a : Agenda α) : a.ready <+: (takeDue count a).ready := by
  induction count generalizing a with
  | zero => exact List.prefix_refl _
  | succ count ih =>
    rw [takeDue]
    split
    · exact List.prefix_refl _
    · split
      · next t queue _ _ =>
        have hmore : a.ready <+: a.ready ++ [t] := List.prefix_append _ _
        exact hmore.trans (ih { a with queue := queue, ready := a.ready ++ [t] })
      · exact List.prefix_refl _

theorem due_moveOn {due : Rat} (hsoon : a.soon = [])
    (hfirst : (a.queue[0]?).map Timer.due = some (.finite due)) : due ≤ a.moveOn.now := by
  unfold Agenda.moveOn
  rw [hsoon, hfirst]
  dsimp only
  split
  · exact Rat.le_refl
  · next h => exact Rat.not_lt.1 h

theorem queue_moveOn (a : Agenda α) : a.moveOn.queue = a.queue ∧ a.moveOn.soon = a.soon := by
  unfold Agenda.moveOn
  split
  · split <;> exact ⟨rfl, rfl⟩
  · exact ⟨rfl, rfl⟩

theorem ready_turn (h : a.Timely) (hready : a.ready = []) (halarms : a.alarms ≠ []) :
    a.turn.ready ≠ [] := by
  obtain ⟨hkeeps, hready'⟩ := keeps_tidy a
  obtain ⟨c, hc⟩ : ∃ c, c = a.tidy := ⟨_, rfl⟩
  rw [← hc] at hkeeps hready'
  obtain ⟨hqueue, hsoon⟩ := queue_moveOn c
  unfold turn
  rw [← hc]
  dsimp only
  cases hput : c.soon with
  | cons t soon =>
    have hprefix := ready_takeDue c.moveOn.queue.size
      { c.moveOn with ready := c.moveOn.soon, soon := [] }
    intro hnil
    rw [hnil] at hprefix
    have hempty : c.moveOn.soon = [] := List.prefix_nil.1 hprefix
    rw [hsoon, hput] at hempty
    cases hempty
  | nil =>
    have hsize : 0 < c.queue.size := by
      refine Nat.pos_of_ne_zero fun hzero => halarms ?_
      have hnone : c.alarms = [] := by
        simp [alarms, timers, hready', hready, hput, Array.eq_empty_of_size_eq_zero hzero]
      exact List.Perm.eq_nil (hnone ▸ hkeeps.alarms)
    obtain ⟨due, hdue⟩ := h.keeps hkeeps c.queue[0] (by simp [timers])
    have hfirst : c.queue[0]? = some c.queue[0] := Array.getElem?_eq_getElem hsize
    have hcome : due ≤ c.moveOn.now := due_moveOn hput (by rw [hfirst, Option.map_some, hdue])
    obtain ⟨rest, hpop⟩ : ∃ rest, Heap.pop? Timer.before c.queue = some (c.queue[0], rest) :=
      ⟨_, by rw [Heap.pop?, hfirst]; rfl⟩
    obtain ⟨count, hcount⟩ := Nat.exists_eq_succ_of_ne_zero (Nat.ne_of_gt hsize)
    have htake : takeDue c.moveOn.queue.size { c.moveOn with ready := c.moveOn.soon, soon := [] } =
        takeDue count { c.moveOn with queue := rest, ready := [c.queue[0]], soon := [] } := by
      rw [hqueue, hcount, Nat.succ_eq_add_one, takeDue]
      simp only [hqueue, hpop, hdue, Time.hasCome, hcome, decide_true, if_true, hsoon, hput,
        List.nil_append]
    rw [htake]
    intro hnil
    have hprefix := ready_takeDue count
      { c.moveOn with queue := rest, ready := [c.queue[0]], soon := [] }
    rw [hnil] at hprefix
    exact absurd (List.prefix_nil.1 hprefix) (by simp)

theorem advance?_isSome (h : a.Timely) (halarms : a.alarms ≠ []) :
    ∃ answer b, a.advance? = some (answer, b) := by
  unfold Agenda.advance?
  dsimp only
  cases hready : a.ready with
  | cons t rest =>
    simp only [List.isEmpty_cons, Bool.false_eq_true, if_false, hready]
    exact ⟨_, _, rfl⟩
  | nil =>
    have hturn := ready_turn h hready halarms
    simp only [List.isEmpty_nil, if_true]
    cases hnext : a.turn.ready with
    | nil => exact absurd hnext hturn
    | cons t rest => exact ⟨_, _, rfl⟩

end TapeLab.Agenda
