import TapeLab.Proofs.Agenda.Progress
import TapeLab.Proofs.Heap.Order

/-!
The clock of an agenda. The timers in the queue are in order, so the time moves on to the first of
them and passes none; and what is in a turn or has been put off to the next one has its time come.
So no alarm goes off before its time, and none that is live is left behind.
-/

namespace TapeLab

namespace Timer

variable {α : Type}

def moment (t : Timer α) : Rat :=
  match t.due with
  | .finite ms => ms
  | _ => 0

@[simp] theorem withdraw_due (id : Nat) (t : Timer α) : (t.withdraw id).due = t.due := by
  unfold withdraw
  split <;> rfl

theorem ranked_of_finite {q : Array (Timer α)} (h : ∀ t ∈ q, ∃ ms, t.due = .finite ms) :
    Heap.Ranked before q := by
  refine ⟨moment, fun t ht u hu => ?_⟩
  obtain ⟨ms, hms⟩ := h t ht
  obtain ⟨ms', hms'⟩ := h u hu
  simp [before, moment, hms, hms', Time.before]

end Timer

theorem Time.hasCome_mono {t : Time} {now now' : Rat} (h : t.hasCome now = true)
    (hle : now ≤ now') : t.hasCome now' = true := by
  cases t with
  | finite ms => exact decide_eq_true (Rat.le_trans (of_decide_eq_true h) hle)
  | never => cases h
  | unclear => rfl

namespace Agenda

variable {α : Type} {a b : Agenda α} {t : Timer α} {answer : Option α} {x : α} {ms : Rat}

theorem Timely.ranked (h : a.Timely) : Heap.Ranked Timer.before a.queue :=
  Timer.ranked_of_finite fun t ht => h t (by simp [timers, ht])

theorem now_dropStale (count : Nat) (a : Agenda α) :
    (dropStale count a).now = a.now ∧ (dropStale count a).soon = a.soon := by
  induction count generalizing a with
  | zero => exact ⟨rfl, rfl⟩
  | succ count ih =>
    rw [dropStale]
    split
    · exact ⟨rfl, rfl⟩
    · split
      · exact ⟨rfl, rfl⟩
      · next t queue _ _ => exact ih { a with queue := queue, stale := a.stale - 1 }

theorem now_tidy (a : Agenda α) : a.tidy.now = a.now ∧ a.tidy.soon = a.soon := by
  unfold tidy
  split
  · exact ⟨rfl, rfl⟩
  · exact now_dropStale _ a

theorem now_takeDue (count : Nat) (a : Agenda α) :
    (takeDue count a).now = a.now ∧ (takeDue count a).soon = a.soon := by
  induction count generalizing a with
  | zero => exact ⟨rfl, rfl⟩
  | succ count ih =>
    rw [takeDue]
    split
    · exact ⟨rfl, rfl⟩
    · split
      · next t queue _ _ => exact ih { a with queue := queue, ready := a.ready ++ [t] }
      · exact ⟨rfl, rfl⟩

theorem now_moveOn (a : Agenda α) : a.now ≤ a.moveOn.now := by
  unfold Agenda.moveOn
  split
  · split
    · next h => exact Rat.le_of_lt h
    · exact Rat.le_refl
  · exact Rat.le_refl

theorem now_turn (a : Agenda α) : a.turn.now = a.tidy.moveOn.now := (now_takeDue _ _).1

theorem now_perform (a : Agenda α) (t : Timer α) : (a.perform t).2.now = a.now := by
  unfold perform
  split <;> rfl

structure Orderly (a : Agenda α) : Prop where
  timely : a.Timely
  queue : Heap.OrderedFrom Timer.before 0 a.queue
  ripe : ∀ t ∈ a.ready ++ a.soon, t.due.hasCome a.now = true

theorem Orderly.set (h : a.Orderly) (ms : Rat) (call : Call α) :
    (a.set (.finite ms) call).1.Orderly where
  timely := h.timely.set ms call
  queue := by
    refine Heap.orderedFrom_push (Timer.ranked_of_finite fun t ht => ?_) h.queue
    rcases Array.mem_push.1 ht with ht | rfl
    · exact h.timely t (by simp [timers, ht])
    · exact ⟨_, rfl⟩
  ripe := h.ripe

theorem Orderly.putOff (h : a.Orderly) (call : Call α) : (a.putOff call).1.Orderly where
  timely := h.timely.putOff call
  queue := h.queue
  ripe := by
    intro t ht
    rw [Agenda.putOff, ← List.append_assoc] at ht
    rcases List.mem_append.1 ht with ht | ht
    · exact h.ripe t ht
    · obtain rfl := List.mem_singleton.1 ht
      exact decide_eq_true Rat.le_refl

theorem Orderly.cancelHeld (h : a.Orderly) (held : Option Nat) : (a.cancelHeld held).Orderly := by
  refine ⟨h.timely.cancelHeld held, ?_, ?_⟩
  · cases held with
    | none => exact h.queue
    | some id => exact h.queue.map fun t u => by simp [Timer.before]
  · cases held with
    | none => exact h.ripe
    | some id =>
      intro t ht
      rw [Agenda.cancelHeld, Agenda.cancel, ← List.map_append] at ht
      obtain ⟨u, hu, rfl⟩ := List.mem_map.1 ht
      rw [Timer.withdraw_due]
      exact h.ripe u hu

theorem Orderly.withQueue (h : a.Orderly) {queue : Array (Timer α)} (stale : Nat)
    (hsub : ∀ t ∈ queue, t ∈ a.queue) (hqueue : Heap.OrderedFrom Timer.before 0 queue) :
    Orderly { a with queue := queue, stale := stale } where
  timely := by
    intro t ht
    refine h.timely t ?_
    simp only [timers, List.mem_append, Array.mem_toList_iff] at ht ⊢
    exact ht.imp_right (hsub t)
  queue := hqueue
  ripe := h.ripe

theorem mem_of_pop? {queue rest : Array (Timer α)}
    (hpop : Heap.pop? Timer.before queue = some (t, rest)) {u : Timer α} :
    u ∈ queue ↔ u = t ∨ u ∈ rest := by
  rw [← Array.mem_toList_iff, (Heap.pop?_perm Timer.before hpop).mem_iff, List.mem_cons,
    Array.mem_toList_iff]

theorem Orderly.dropStale (count : Nat) (h : a.Orderly) : (a.dropStale count).Orderly := by
  induction count generalizing a with
  | zero => exact h
  | succ count ih =>
    rw [Agenda.dropStale]
    split
    · exact h
    · next t queue hpop =>
      split
      · exact h
      · exact ih (h.withQueue _ (fun u hu => (mem_of_pop? hpop).2 (.inr hu))
          (Heap.orderedFrom_pop? h.timely.ranked h.queue hpop))

theorem Orderly.tidy (h : a.Orderly) : a.tidy.Orderly := by
  unfold Agenda.tidy
  split
  · have hlive : ∀ t ∈ a.queue.filter Timer.isLive, t ∈ a.queue :=
      fun t ht => (Array.mem_filter.1 ht).1
    refine h.withQueue 0 (fun t ht => hlive t ?_) ?_
    · exact (Heap.ofArray_perm Timer.before _).mem_iff.1 ht
    · exact Heap.orderedFrom_ofArray (h.timely.ranked.of_subset hlive)
  · exact h.dropStale _

theorem Orderly.moveOn (h : a.Orderly) : a.moveOn.Orderly := by
  obtain ⟨hqueue, hsoon⟩ := a.queue_moveOn
  obtain ⟨hkeeps, hready⟩ := a.keeps_moveOn
  refine ⟨h.timely.keeps hkeeps, hqueue ▸ h.queue, fun t ht => ?_⟩
  rw [hready, hsoon] at ht
  exact Time.hasCome_mono (h.ripe t ht) a.now_moveOn

theorem Orderly.takeDue (count : Nat) (h : a.Orderly) : (a.takeDue count).Orderly := by
  induction count generalizing a with
  | zero => exact h
  | succ count ih =>
    rw [Agenda.takeDue]
    split
    · exact h
    · next t queue hpop =>
      split
      · next hcome =>
        refine ih ⟨?_, Heap.orderedFrom_pop? h.timely.ranked h.queue hpop, ?_⟩
        · intro u hu
          refine h.timely u ?_
          simp only [timers, List.mem_append, Array.mem_toList_iff, mem_of_pop? hpop] at hu ⊢
          simp only [List.mem_singleton] at hu
          tauto
        · intro u hu
          simp only [List.mem_append, List.mem_singleton] at hu
          rcases hu with (hu | rfl) | hu
          · exact h.ripe u (List.mem_append_left _ hu)
          · exact hcome
          · exact h.ripe u (List.mem_append_right _ hu)
      · exact h

theorem Orderly.turn (h : a.Orderly) (hready : a.ready = []) : a.turn.Orderly := by
  have hmoved := h.tidy.moveOn
  have hnone : a.tidy.moveOn.ready = [] := by rw [(keeps_moveOn _).2, (keeps_tidy a).2, hready]
  refine Orderly.takeDue _ ⟨?_, hmoved.queue, ?_⟩
  · exact hmoved.timely.keeps (keeps_of_timers (by simp [timers, hnone]) rfl)
  · simpa [hnone] using hmoved.ripe

theorem mem_dropStale (count : Nat) (ht : t ∈ a.queue) (hlive : t.isLive) :
    t ∈ (dropStale count a).queue := by
  induction count generalizing a with
  | zero => exact ht
  | succ count ih =>
    rw [Agenda.dropStale]
    split
    · exact ht
    · next u queue hpop =>
      split
      · exact ht
      · next hstale =>
        refine ih (((mem_of_pop? hpop).1 ht).resolve_left ?_)
        rintro rfl
        exact hstale hlive

theorem mem_tidy (ht : t ∈ a.queue) (hlive : t.isLive) : t ∈ a.tidy.queue := by
  unfold tidy
  split
  · exact (Heap.ofArray_perm Timer.before _).mem_iff.2 (Array.mem_filter.2 ⟨ht, hlive⟩)
  · exact mem_dropStale _ ht hlive

theorem Orderly.now_turn_le (h : a.Orderly) (hready : a.ready = []) (ht : t ∈ a.timers)
    (hlive : t.isLive) (hdue : t.due = .finite ms) : a.turn.now = a.now ∨ a.turn.now ≤ ms := by
  rw [now_turn]
  obtain ⟨hnow, hsoon⟩ := now_tidy a
  unfold Agenda.moveOn
  split
  · next due hnone hfirst =>
    split
    · -- The timer stands in the queue, and not before the first one there.
      have hqueue : t ∈ a.tidy.queue := by
        refine mem_tidy ?_ hlive
        simpa [timers, hready, ← hsoon, hnone] using ht
      obtain ⟨u, hu, hudue⟩ := Option.map_eq_some_iff.1 hfirst
      have hbefore := Heap.not_before_first h.tidy.timely.ranked h.tidy.queue hu t hqueue
      rw [Timer.before, hudue, hdue, Time.before] at hbefore
      exact .inr (Rat.not_lt.1 (of_decide_eq_false hbefore))
    · exact .inl hnow
  · exact .inl hnow

theorem Orderly.call {rest : List (Timer α)} (h : a.Orderly) (hready : a.ready = t :: rest) :
    (perform { a with ready := rest } t).2.Orderly := by
  have hmem : t ∈ a.timers := by simp [timers, hready]
  have hrest : Orderly { a with ready := rest } := by
    refine ⟨fun u hu => h.timely u ?_, h.queue, fun u hu => h.ripe u ?_⟩
    · simp only [timers, hready, List.cons_append] at hu ⊢
      exact List.mem_cons_of_mem t hu
    · rw [hready]
      exact List.mem_cons_of_mem t hu
  unfold perform
  split
  · exact hrest
  · exact hrest
  · exact ⟨hrest.timely, hrest.queue, hrest.ripe⟩
  · next turns _ =>
    obtain ⟨ms, hms⟩ := h.timely t hmem
    refine ⟨?_, h.queue, fun u hu => ?_⟩
    · exact hrest.timely.cons (timers_later _ { t with call := some (.bell turns) }) hms
    · rw [← List.append_assoc] at hu
      rcases List.mem_append.1 hu with hu | hu
      · exact hrest.ripe u hu
      · obtain rfl := List.mem_singleton.1 hu
        exact h.ripe t (by simp [hready])

theorem Orderly.advance? (h : a.Orderly) (hadvance : a.advance? = some (answer, b)) :
    b.Orderly ∧ a.now ≤ b.now ∧
      (∀ t ∈ a.timers, t.isLive → ∀ ms, t.due = .finite ms → b.now = a.now ∨ b.now ≤ ms) ∧
      ∀ x, answer = some x →
        ∃ t ∈ a.timers, t.call = some (.alarm x) ∧ t.due.hasCome b.now = true := by
  obtain ⟨c, t, rest, hturn, hready, hpair⟩ := advance?_eq_perform hadvance
  have hb : (perform { c with ready := rest } t).2 = b := congrArg Prod.snd hpair
  have hnow : b.now = c.now := by rw [← hb, now_perform]
  have hc : c.Orderly ∧ a.now ≤ c.now ∧ (∀ u ∈ c.timers, u ∈ a.timers) ∧
      ∀ t ∈ a.timers, t.isLive → ∀ ms, t.due = .finite ms → c.now = a.now ∨ c.now ≤ ms := by
    rcases hturn with rfl | ⟨hempty, rfl⟩
    · exact ⟨h, Rat.le_refl, fun _ hu => hu, fun _ _ _ _ _ => .inl rfl⟩
    · obtain ⟨gone, hgone⟩ := (keeps_turn hempty).timers
      refine ⟨h.turn hempty, ?_, fun u hu => hgone.mem_iff.2 (List.mem_append_right _ hu),
        fun t ht hlive ms hms => h.now_turn_le hempty ht hlive hms⟩
      rw [now_turn, ← (now_tidy a).1]
      exact now_moveOn _
  obtain ⟨hc, hle, hsub, hpass⟩ := hc
  refine ⟨hb ▸ hc.call hready, hnow ▸ hle, fun u hu hlive ms hms => ?_, ?_⟩
  · rw [hnow]
    exact hpass u hu hlive ms hms
  · rintro x rfl
    refine ⟨t, hsub t (by simp [timers, hready]), ?_, ?_⟩
    · unfold perform at hpair
      split at hpair <;> simp_all
    · rw [hnow]
      exact hc.ripe t (by simp [hready])

/-- Every alarm for this is due at that moment. -/
def DueAt (a : Agenda α) (x : α) (ms : Rat) : Prop :=
  ∀ t ∈ a.timers, t.call = some (.alarm x) → t.due = .finite ms

theorem mem_alarms {id : Nat} :
    (id, x) ∈ a.alarms ↔ ∃ t ∈ a.timers, t.id = id ∧ t.call = some (.alarm x) := by
  rw [alarms, List.mem_filterMap]
  refine exists_congr fun t => and_congr_right fun _ => ?_
  unfold Timer.alarm?
  split
  · next y hy => simp [hy]
  · next hother => exact ⟨by simp, fun h => (hother x h.2).elim⟩

theorem DueAt.insert_other (h : a.DueAt x ms) (htimers : b.timers.Perm (t :: a.timers))
    (hother : t.call ≠ some (.alarm x)) : b.DueAt x ms := by
  intro u hu hcall
  rcases List.mem_cons.1 (htimers.mem_iff.1 hu) with rfl | hu
  · exact absurd hcall hother
  · exact h u hu hcall

theorem DueAt.advance? (h : a.DueAt x ms) (hadvance : a.advance? = some (answer, b)) :
    b.DueAt x ms := by
  obtain ⟨c, t, rest, hkeeps, hready, hpair⟩ := advance?_eq_some hadvance
  obtain ⟨gone, hgone⟩ := hkeeps.timers
  obtain rfl : (perform { c with ready := rest } t).2 = b := congrArg Prod.snd hpair
  have hrest : DueAt { c with ready := rest } x ms := fun u hu => h u (by
    refine hgone.mem_iff.2 (List.mem_append_right _ ?_)
    simp only [timers, hready, List.cons_append] at hu ⊢
    exact List.mem_cons_of_mem t hu)
  unfold perform
  split
  · exact hrest
  · exact hrest
  · exact hrest
  · exact hrest.insert_other (timers_later _ _) (by simp)

theorem Orderly.now_advance? (h : a.Orderly) (hdue : a.DueAt x ms) {id : Nat}
    (hmem : (id, x) ∈ a.alarms) (hadvance : a.advance? = some (answer, b)) :
    a.now ≤ b.now ∧ (b.now = a.now ∨ b.now ≤ ms) ∧ (answer = some x → ms ≤ b.now) := by
  obtain ⟨-, hle, hpass, hcome⟩ := h.advance? hadvance
  obtain ⟨t, ht, -, hcall⟩ := mem_alarms.1 hmem
  refine ⟨hle, hpass t ht (by simp [Timer.isLive, hcall]) ms (hdue t ht hcall), fun hx => ?_⟩
  obtain ⟨u, hu, hucall, hucome⟩ := hcome x hx
  rw [hdue u hu hucall] at hucome
  exact of_decide_eq_true hucome

end Agenda

end TapeLab
