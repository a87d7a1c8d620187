import TapeLab.Agenda
import TapeLab.Proofs.Heap

/-!
The alarms of an agenda. Going on by one call takes the alarm away that is answered, and no other,
whatever becomes of the order of the timers.
-/

namespace TapeLab

def Timer.alarm? {α : Type} (t : Timer α) : Option (Nat × α) :=
  match t.call with
  | some (.alarm x) => some (t.id, x)
  | _ => none

namespace Agenda

variable {α : Type} {a : Agenda α}

def alarms (a : Agenda α) : List (Nat × α) := a.timers.filterMap Timer.alarm?

/-- The same timers but for such as are gone without having been for an alarm, in any order. -/
structure Keeps (a b : Agenda α) : Prop where
  timers : ∃ gone, a.timers.Perm (gone ++ b.timers)
  alarms : a.alarms.Perm b.alarms
  next : b.next = a.next

theorem Keeps.trans {b c : Agenda α} (h : Keeps a b) (h' : Keeps b c) : Keeps a c := by
  obtain ⟨gone, hgone⟩ := h.timers
  obtain ⟨gone', hgone'⟩ := h'.timers
  refine ⟨⟨gone ++ gone', ?_⟩, h.alarms.trans h'.alarms, h'.next.trans h.next⟩
  rw [List.append_assoc]
  exact hgone.trans (hgone'.append_left gone)

theorem Keeps.refl (a : Agenda α) : Keeps a a := ⟨⟨[], .refl _⟩, .refl _, rfl⟩

theorem keeps_of_timers {b : Agenda α} (h : a.timers.Perm b.timers) (hnext : b.next = a.next) :
    Keeps a b := ⟨⟨[], h⟩, h.filterMap _, hnext⟩

theorem alarm?_of_not_live {t : Timer α} (h : ¬ t.isLive = true) : t.alarm? = none := by
  have hcall : t.call = none := by simpa [Timer.isLive] using h
  rw [Timer.alarm?, hcall]

theorem keeps_dropStale (count : Nat) (a : Agenda α) :
    Keeps a (dropStale count a) ∧ (dropStale count a).ready = a.ready := by
  induction count generalizing a with
  | zero => exact ⟨.refl a, rfl⟩
  | succ count ih =>
    rw [dropStale]
    split
    · exact ⟨.refl a, rfl⟩
    · next t queue hpop =>
      split
      · exact ⟨.refl a, rfl⟩
      · next hlive =>
        have hdrop : Keeps a { a with queue := queue, stale := a.stale - 1 } := by
          have hqueue := (Heap.pop?_perm Timer.before hpop).append_left (a.ready ++ a.soon)
          have htimers := hqueue.trans List.perm_middle
          refine ⟨⟨[t], htimers⟩, ?_, rfl⟩
          have halarms := htimers.filterMap Timer.alarm?
          rwa [List.filterMap_cons, alarm?_of_not_live hlive] at halarms
        exact ⟨hdrop.trans (ih _).1, (ih _).2⟩

theorem keeps_tidy (a : Agenda α) : Keeps a a.tidy ∧ a.tidy.ready = a.ready := by
  unfold tidy
  split
  · have hqueue := (Heap.ofArray_perm Timer.before (a.queue.filter Timer.isLive)).toList
    rw [Array.toList_filter] at hqueue
    have hsplit := (List.filter_append_perm Timer.isLive a.queue.toList).symm
    refine ⟨⟨⟨a.queue.toList.filter fun t => !t.isLive, ?_⟩, ?_, rfl⟩, rfl⟩
    · have hdropped := (hsplit.trans (hqueue.symm.append_right _)).append_left (a.ready ++ a.soon)
      refine hdropped.trans ?_
      rw [← List.append_assoc]
      exact List.perm_append_comm
    have hlive : (a.queue.toList.filter Timer.isLive).filterMap Timer.alarm? =
        a.queue.toList.filterMap Timer.alarm? := by
      rw [List.filterMap_filter]
      congr 1
      funext t
      split
      · rfl
      · next h => rw [alarm?_of_not_live h]
    have halarms := hqueue.filterMap Timer.alarm?
    rw [hlive] at halarms
    simp only [alarms, timers, List.filterMap_append]
    exact halarms.symm.append_left _
  · exact keeps_dropStale _ a

theorem keeps_moveOn (a : Agenda α) : Keeps a a.moveOn ∧ a.moveOn.ready = a.ready := by
  unfold Agenda.moveOn
  split
  · split
    · exact ⟨⟨⟨[], .refl _⟩, .refl _, rfl⟩, rfl⟩
    · exact ⟨.refl a, rfl⟩
  · exact ⟨.refl a, rfl⟩

theorem keeps_takeDue (count : Nat) (a : Agenda α) : Keeps a (takeDue count a) := by
  induction count generalizing a with
  | zero => exact .refl a
  | succ count ih =>
    rw [takeDue]
    split
    · exact .refl a
    · next t queue hpop =>
      split
      · have htake : Keeps a { a with queue := queue, ready := a.ready ++ [t] } := by
          refine keeps_of_timers ?_ rfl
          have hqueue := (Heap.pop?_perm Timer.before hpop).append_left (a.ready ++ a.soon)
          refine hqueue.trans (List.perm_middle.trans ?_)
          simp only [timers, List.append_assoc, List.singleton_append]
          exact List.perm_middle.symm
        exact htake.trans (ih _)
      · exact .refl a

theorem keeps_turn (h : a.ready = []) : Keeps a a.turn := by
  have hready : a.tidy.moveOn.ready = [] := by
    rw [(keeps_moveOn _).2, (keeps_tidy a).2, h]
  have hbegin : Keeps a.tidy.moveOn
      { a.tidy.moveOn with ready := a.tidy.moveOn.soon, soon := [] } := by
    refine keeps_of_timers ?_ rfl
    simp [timers, hready]
  exact (((keeps_tidy a).1.trans (keeps_moveOn _).1).trans hbegin).trans (keeps_takeDue _ _)

theorem alarms_perform (a : Agenda α) (t : Timer α) :
    (a.perform t).2.next = a.next ∧
      t.alarm?.toList.map Prod.snd = (a.perform t).1.toList ∧
      (a.perform t).2.alarms = a.alarms := by
  unfold perform Timer.alarm?
  split
  · next h => simp [h]
  · next h => simp [h]
  · next h => simp [h, alarms, timers]
  · next turns h =>
    have hbell : Timer.alarm? { t with call := some (.bell turns : Call α) } = none := rfl
    simp [h, alarms, timers, hbell]

theorem advance?_eq_perform {answer : Option α} {b : Agenda α} (h : a.advance? = some (answer, b)) :
    ∃ c t rest, (c = a ∨ a.ready = [] ∧ c = a.turn) ∧ c.ready = t :: rest ∧
      perform { c with ready := rest } t = (answer, b) := by
  obtain ⟨c, hc⟩ : ∃ c, c = if a.ready.isEmpty then a.turn else a := ⟨_, rfl⟩
  have hturn : c = a ∨ a.ready = [] ∧ c = a.turn := by
    rw [hc]
    split
    · next hempty => exact .inr ⟨List.isEmpty_iff.1 hempty, rfl⟩
    · exact .inl rfl
  unfold Agenda.advance? at h
  rw [← hc] at h
  dsimp only at h
  split at h
  · cases h
  · next t rest hready => exact ⟨c, t, rest, hturn, hready, Option.some.inj h⟩

theorem advance?_eq_some {answer : Option α} {b : Agenda α} (h : a.advance? = some (answer, b)) :
    ∃ c t rest, Keeps a c ∧ c.ready = t :: rest ∧
      perform { c with ready := rest } t = (answer, b) := by
  obtain ⟨c, t, rest, hturn, hready, hpair⟩ := advance?_eq_perform h
  refine ⟨c, t, rest, ?_, hready, hpair⟩
  rcases hturn with rfl | ⟨hempty, rfl⟩
  · exact .refl _
  · exact keeps_turn hempty

theorem advance?_cases {answer : Option α} {b : Agenda α} (h : a.advance? = some (answer, b)) :
    b.next = a.next ∧
      ∃ gone, a.alarms.Perm (gone ++ b.alarms) ∧ gone.map Prod.snd = answer.toList := by
  obtain ⟨c, t, rest, hkeeps, hready, hpair⟩ := advance?_eq_some h
  obtain ⟨hnext, hgone, halarms⟩ := alarms_perform { c with ready := rest } t
  rw [hpair] at hnext hgone halarms
  refine ⟨hnext.trans hkeeps.next, t.alarm?.toList, ?_, hgone⟩
  rw [halarms]
  refine hkeeps.alarms.trans ?_
  simp only [alarms, timers, hready, List.cons_append, List.filterMap_cons]
  cases t.alarm? <;> exact .refl _

theorem advance?_pass {b : Agenda α} (h : a.advance? = some (none, b)) :
    a.alarms.Perm b.alarms ∧ b.next = a.next := by
  obtain ⟨hnext, gone, halarms, hgone⟩ := advance?_cases h
  obtain rfl : gone = [] := List.map_eq_nil_iff.1 hgone
  exact ⟨halarms, hnext⟩

theorem advance?_fire {x : α} {b : Agenda α} (h : a.advance? = some (some x, b)) :
    ∃ id, a.alarms.Perm ((id, x) :: b.alarms) ∧ b.next = a.next := by
  obtain ⟨hnext, gone, halarms, hgone⟩ := advance?_cases h
  obtain ⟨⟨id, fired⟩, rfl, rfl⟩ := List.map_eq_singleton_iff.1 hgone
  exact ⟨id, halarms, hnext⟩

end Agenda

end TapeLab
