import Mathlib.Data.List.Nodup
import TapeLab.Proofs.Agenda

/-!
The numbers of timers. Setting a timer adds one alarm and cancelling takes one away; no number is
given twice, so whoever remembers the number of a timer cancels this one and no other. `Held` says
that the timer whose number is remembered is still to go off, and `Sole` that there is no other one
for the same thing.
-/

namespace TapeLab.Agenda

variable {α : Type} {a b : Agenda α} {x y : α} {id : Nat} {held : Option Nat}

theorem timers_set (a : Agenda α) (delay : Time) (call : Call α) :
    (a.set delay call).1.timers.Perm (⟨a.next, delay.after a.now, some call⟩ :: a.timers) := by
  have hpush := (Heap.push_perm Timer.before a.queue ⟨a.next, delay.after a.now, some call⟩).toList
  rw [Array.toList_push] at hpush
  refine (hpush.append_left (a.ready ++ a.soon)).trans ?_
  rw [← List.append_assoc]
  exact List.perm_append_singleton _ _

theorem alarms_set (a : Agenda α) (delay : Time) (x : α) :
    (a.set delay (.alarm x)).1.alarms.Perm ((a.next, x) :: a.alarms) :=
  (a.timers_set delay (.alarm x)).filterMap _

theorem timers_later (a : Agenda α) (t : Timer α) :
    timers { a with soon := a.soon ++ [t] } |>.Perm (t :: a.timers) := by
  simp only [timers, List.append_assoc, List.singleton_append]
  rw [← List.append_assoc, ← List.append_assoc]
  exact List.perm_middle

theorem timers_putOff (a : Agenda α) (call : Call α) :
    (a.putOff call).1.timers.Perm (⟨a.next, .finite a.now, some call⟩ :: a.timers) :=
  a.timers_later _

theorem alarms_putOff (a : Agenda α) (x : α) :
    (a.putOff (.alarm x)).1.alarms.Perm ((a.next, x) :: a.alarms) :=
  (a.timers_putOff (.alarm x)).filterMap _

theorem alarm?_withdraw (id : Nat) (t : Timer α) :
    (t.withdraw id).alarm? = t.alarm?.filter fun p => p.1 ≠ id := by
  obtain ⟨number, due, call⟩ := t
  by_cases h : number = id
  · rcases call with _ | _ | _ <;> simp [Timer.withdraw, Timer.alarm?, Option.filter, h]
  · rcases call with _ | _ | _ <;> simp [Timer.withdraw, Timer.alarm?, Option.filter, h]

theorem timers_cancel (a : Agenda α) (id : Nat) :
    (a.cancel id).timers = a.timers.map (Timer.withdraw id) := by
  simp [timers, cancel]

theorem alarms_cancel (a : Agenda α) (id : Nat) :
    (a.cancel id).alarms = a.alarms.filter fun p => p.1 ≠ id := by
  unfold alarms
  rw [timers_cancel, List.filterMap_map, List.filter_filterMap]
  congr 1
  funext t
  exact alarm?_withdraw id t

structure Numbered (a : Agenda α) : Prop where
  below : ∀ p ∈ a.alarms, p.1 < a.next
  distinct : (a.alarms.map Prod.fst).Nodup

theorem numbered_empty : (empty : Agenda α).Numbered :=
  ⟨fun _ h => absurd h List.not_mem_nil, List.nodup_nil⟩

theorem Numbered.eq (h : a.Numbered) (hx : (id, x) ∈ a.alarms) (hy : (id, y) ∈ a.alarms) :
    x = y :=
  congrArg Prod.snd (List.inj_on_of_nodup_map h.distinct hx hy rfl)

theorem Numbered.perm (h : a.Numbered) (halarms : a.alarms.Perm b.alarms)
    (hnext : a.next ≤ b.next) : b.Numbered where
  below p hp := Nat.lt_of_lt_of_le (h.below p (halarms.mem_iff.2 hp)) hnext
  distinct := (halarms.map Prod.fst).nodup_iff.1 h.distinct

theorem Numbered.tail {gone : List (Nat × α)} (h : a.Numbered)
    (halarms : a.alarms.Perm (gone ++ b.alarms)) (hnext : b.next = a.next) : b.Numbered where
  below p hp := hnext ▸ h.below p (halarms.mem_iff.2 (List.mem_append_right _ hp))
  distinct := by
    have hdistinct := (halarms.map Prod.fst).nodup_iff.1 h.distinct
    rw [List.map_append] at hdistinct
    exact hdistinct.of_append_right

theorem Numbered.insert (h : a.Numbered) (halarms : b.alarms.Perm ((a.next, x) :: a.alarms))
    (hnext : b.next = a.next + 1) : b.Numbered where
  below p hp := by
    rcases List.mem_cons.1 (halarms.mem_iff.1 hp) with rfl | hp
    · exact hnext ▸ Nat.lt_succ_self _
    · exact hnext ▸ Nat.lt_succ_of_lt (h.below p hp)
  distinct := by
    rw [(halarms.map Prod.fst).nodup_iff, List.map_cons, List.nodup_cons]
    refine ⟨fun hmem => ?_, h.distinct⟩
    obtain ⟨p, hp, hnumber⟩ := List.mem_map.1 hmem
    exact absurd (h.below p hp) (by rw [hnumber]; exact Nat.lt_irrefl _)

theorem Numbered.remove (h : a.Numbered) (halarms : a.alarms.Perm ((id, x) :: b.alarms))
    (hnext : b.next = a.next) : b.Numbered ∧ ∀ y, (id, y) ∉ b.alarms := by
  have hdistinct := (halarms.map Prod.fst).nodup_iff.1 h.distinct
  rw [List.map_cons, List.nodup_cons] at hdistinct
  refine ⟨⟨fun p hp => ?_, hdistinct.2⟩, fun y hy => hdistinct.1 (List.mem_map.2 ⟨_, hy, rfl⟩)⟩
  rw [hnext]
  exact h.below p (halarms.mem_iff.2 (List.mem_cons_of_mem _ hp))

theorem Numbered.set (h : a.Numbered) (delay : Time) (x : α) :
    (a.set delay (.alarm x)).1.Numbered := h.insert (a.alarms_set delay x) rfl

theorem Numbered.putOff (h : a.Numbered) (x : α) : (a.putOff (.alarm x)).1.Numbered :=
  h.insert (a.alarms_putOff x) rfl

theorem Numbered.cancel (h : a.Numbered) (id : Nat) : (a.cancel id).Numbered where
  below p hp := by
    rw [alarms_cancel] at hp
    exact h.below p (List.mem_of_mem_filter hp)
  distinct := by
    rw [alarms_cancel]
    exact h.distinct.sublist (List.filter_sublist.map Prod.fst)

/-- The alarm with this number, if there is a number, is for this. -/
def Held (a : Agenda α) (x : α) (held : Option Nat) : Prop :=
  ∀ id, held = some id → (id, x) ∈ a.alarms

theorem held_none (a : Agenda α) (x : α) : a.Held x none := fun _ h => by cases h

theorem Held.perm (h : a.Held x held) (halarms : a.alarms.Perm b.alarms) : b.Held x held :=
  fun id hid => halarms.mem_iff.1 (h id hid)

theorem Held.other (h : a.Held x held) (halarms : a.alarms.Perm ((id, y) :: b.alarms))
    (hne : x ≠ y) : b.Held x held := by
  intro i hi
  have hmem := halarms.mem_iff.1 (h i hi)
  simpa [hne] using hmem

theorem held_insert (halarms : b.alarms.Perm ((id, x) :: a.alarms)) : b.Held x (some id) := by
  rintro _ ⟨⟩
  exact halarms.mem_iff.2 List.mem_cons_self

theorem Held.insert_other (h : a.Held x held) (halarms : b.alarms.Perm ((id, y) :: a.alarms)) :
    b.Held x held :=
  fun i hi => halarms.mem_iff.2 (List.mem_cons_of_mem _ (h i hi))

/-- The alarm with this number, if there is a number, is the only one for this. -/
def Sole (a : Agenda α) (x : α) (held : Option Nat) : Prop :=
  ∀ id, (id, x) ∈ a.alarms ↔ held = some id

theorem sole_empty (x : α) : (empty : Agenda α).Sole x none :=
  fun _ => iff_of_false List.not_mem_nil (by simp)

theorem Sole.toHeld (h : a.Sole x held) : a.Held x held := fun id => (h id).2

theorem Sole.perm (h : a.Sole x held) (halarms : a.alarms.Perm b.alarms) : b.Sole x held :=
  fun id => halarms.mem_iff.symm.trans (h id)

theorem Sole.gone (h : a.Sole x held) (hnumbered : a.Numbered)
    (halarms : a.alarms.Perm ((id, x) :: b.alarms)) (hnext : b.next = a.next) :
    held = some id ∧ b.Sole x none := by
  have hheld : held = some id := (h id).1 (halarms.mem_iff.2 List.mem_cons_self)
  refine ⟨hheld, fun i => iff_of_false (fun hi => ?_) (by simp)⟩
  have hi' := (h i).1 (halarms.mem_iff.2 (List.mem_cons_of_mem _ hi))
  obtain rfl : id = i := Option.some.inj (hheld.symm.trans hi')
  exact (hnumbered.remove halarms hnext).2 x hi

theorem Sole.other (h : a.Sole x held) (halarms : a.alarms.Perm ((id, y) :: b.alarms))
    (hne : x ≠ y) : b.Sole x held := by
  intro i
  rw [← h i, halarms.mem_iff, List.mem_cons]
  simp [hne]

theorem Sole.insert (h : a.Sole x none) (halarms : b.alarms.Perm ((id, x) :: a.alarms)) :
    b.Sole x (some id) := by
  intro i
  rw [halarms.mem_iff, List.mem_cons, h i]
  simp [eq_comm]

theorem Sole.insert_other (h : a.Sole x held) (halarms : b.alarms.Perm ((id, y) :: a.alarms))
    (hne : x ≠ y) : b.Sole x held := by
  intro i
  rw [← h i, halarms.mem_iff, List.mem_cons]
  simp [hne]

def timersFor [DecidableEq α] (a : Agenda α) (x : α) : List Nat :=
  (a.alarms.filter fun p => p.2 = x).map Prod.fst

theorem mem_timersFor [DecidableEq α] : id ∈ a.timersFor x ↔ (id, x) ∈ a.alarms := by
  simp [timersFor]

theorem Sole.timersFor [DecidableEq α] (h : a.Sole x held) (hnumbered : a.Numbered) :
    a.timersFor x = held.toList := by
  have hnodup : (a.timersFor x).Nodup :=
    hnumbered.distinct.sublist (List.filter_sublist.map Prod.fst)
  have hmem (i : Nat) : i ∈ a.timersFor x ↔ held = some i := mem_timersFor.trans (h i)
  cases held with
  | none => exact List.eq_nil_iff_forall_not_mem.2 fun i hi => by simpa using (hmem i).1 hi
  | some id =>
    refine List.Perm.eq_singleton ((List.perm_ext_iff_of_nodup hnodup (by simp)).2 fun i => ?_)
    rw [hmem i]
    simp [eq_comm]

structure Onward (a b : Agenda α) : Prop where
  next : a.next ≤ b.next
  alarms : ∀ p ∈ b.alarms, p.1 < a.next → p ∈ a.alarms

theorem Onward.refl (a : Agenda α) : a.Onward a := ⟨Nat.le_refl _, fun _ h _ => h⟩

theorem Onward.trans {c : Agenda α} (hab : a.Onward b) (hbc : b.Onward c) : a.Onward c where
  next := Nat.le_trans hab.next hbc.next
  alarms p hp hlt := hab.alarms p (hbc.alarms p hp (Nat.lt_of_lt_of_le hlt hab.next)) hlt

theorem onward_insert (halarms : b.alarms.Perm ((a.next, x) :: a.alarms))
    (hnext : b.next = a.next + 1) : a.Onward b where
  next := hnext ▸ Nat.le_succ _
  alarms p hp hlt := by
    rcases List.mem_cons.1 (halarms.mem_iff.1 hp) with rfl | hmem
    · exact absurd hlt (Nat.lt_irrefl _)
    · exact hmem

theorem onward_remove {gone : List (Nat × α)} (halarms : a.alarms.Perm (gone ++ b.alarms))
    (hnext : a.next ≤ b.next) : a.Onward b :=
  ⟨hnext, fun _ hp _ => halarms.mem_iff.2 (List.mem_append_right _ hp)⟩

theorem onward_set (a : Agenda α) (delay : Time) (x : α) :
    a.Onward (a.set delay (.alarm x)).1 := onward_insert (a.alarms_set delay x) rfl

theorem onward_cancel (a : Agenda α) (id : Nat) : a.Onward (a.cancel id) where
  next := Nat.le_refl _
  alarms p hp _ := by
    rw [alarms_cancel] at hp
    exact List.mem_of_mem_filter hp

def Elsewhere (a : Agenda α) (x : α) (number : Option Nat) : Prop :=
  ∀ id, number = some id → id < a.next ∧ (id, x) ∉ a.alarms

theorem elsewhere_none (a : Agenda α) (x : α) : a.Elsewhere x none := fun _ h => by cases h

theorem Elsewhere.onward (h : a.Elsewhere x held) (hab : a.Onward b) : b.Elsewhere x held :=
  fun id hid => ⟨Nat.lt_of_lt_of_le (h id hid).1 hab.next,
    fun hmem => (h id hid).2 (hab.alarms _ hmem (h id hid).1)⟩

theorem Held.elsewhere (h : a.Held y held) (hnumbered : a.Numbered) (hne : x ≠ y) :
    a.Elsewhere x held :=
  fun id hid => ⟨hnumbered.below _ (h id hid), fun hmem => hne (hnumbered.eq hmem (h id hid))⟩

def cancelHeld (a : Agenda α) : Option Nat → Agenda α
  | none => a
  | some id => a.cancel id

theorem Numbered.cancelHeld (h : a.Numbered) (held : Option Nat) :
    (a.cancelHeld held).Numbered := by
  cases held with
  | none => exact h
  | some id => exact h.cancel id

theorem onward_cancelHeld (a : Agenda α) (held : Option Nat) : a.Onward (a.cancelHeld held) := by
  cases held with
  | none => exact .refl a
  | some id => exact a.onward_cancel id

theorem Sole.cancelHeld_self (h : a.Sole x held) : (a.cancelHeld held).Sole x none := by
  cases held with
  | none => exact h
  | some id =>
    intro i
    rw [cancelHeld, alarms_cancel, List.mem_filter, h i, Option.some_inj]
    refine iff_of_false (fun hi => ?_) (by simp)
    simpa [hi.1] using hi.2

variable {other : Option Nat}

theorem Elsewhere.mem_cancelHeld (h : a.Elsewhere x other) :
    (id, x) ∈ (a.cancelHeld other).alarms ↔ (id, x) ∈ a.alarms := by
  cases other with
  | none => rfl
  | some number =>
    rw [cancelHeld, alarms_cancel, List.mem_filter]
    refine and_iff_left_of_imp fun hmem => ?_
    have hne : id ≠ number := fun heq => (h number rfl).2 (heq ▸ hmem)
    simpa using hne

theorem Held.cancelHeld_other (h : a.Held x held) (hother : a.Elsewhere x other) :
    (a.cancelHeld other).Held x held :=
  fun i hi => hother.mem_cancelHeld.2 (h i hi)

theorem Sole.cancelHeld_other (h : a.Sole x held) (hother : a.Elsewhere x other) :
    (a.cancelHeld other).Sole x held :=
  fun i => hother.mem_cancelHeld.trans (h i)

end TapeLab.Agenda
