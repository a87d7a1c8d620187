import Mathlib.Logic.Relation
import TapeLab.Proofs.Clockwork
import TapeLab.Proofs.Workbench.Arises

/-!
Waiting at a workbench. Whatever the timers and the passing of time keep is kept by everyone who
waits, for whatever; and where no run is going on, they let none begin.
-/

namespace TapeLab

namespace Workbench

variable {P : Workbench → Prop} {w v : Workbench}

def Abiding (P : Workbench → Prop) : Prop := ∀ w v, P w → Stirs w v → P v

namespace Abiding

theorem goUntil (h : Abiding P) (hw : P w) (done : Workbench → Bool) (patience : Nat) :
    P (clockwork.goUntil done patience w) :=
  clockwork.goUntil_keeps
    (fun _ _ hv halarms hnext => h _ _ hv (.pass halarms (Nat.le_of_eq hnext.symm)))
    (fun _ _ _ _ hv halarms hnext => h _ _ hv (.fire halarms hnext)) patience hw

theorem reached (h : Abiding P) (hw : P w) (hv : Relation.ReflTransGen Stirs w v) : P v := by
  induction hv with
  | refl => exact hw
  | tail _ hstirs ih => exact h _ _ ih hstirs

theorem setBell (h : Abiding P) (hw : P w) (delay : Time) (turns : Nat) :
    P (clockwork.setBell delay turns w).1 := by
  refine h _ _ hw (.pass ?_ (Nat.le_succ _))
  exact ((w.desk.agenda.timers_set delay (.bell turns)).filterMap Timer.alarm?).symm

theorem passTurns (h : Abiding P) (hw : P w) (patience turns : Nat) :
    P (clockwork.passTurns patience turns w) := by
  refine h.goUntil (h _ _ hw (.pass ?_ (Nat.le_succ _))) _ patience
  exact ((w.desk.agenda.timers_putOff (.bell (turns - 1))).filterMap Timer.alarm?).symm

theorem sleep (h : Abiding P) (hw : P w) (patience : Nat) (delay : Rat) :
    P (clockwork.sleep patience delay w) := by
  unfold Clockwork.sleep
  split
  · exact h.goUntil (h.setBell hw _ _) _ patience
  · exact h.passTurns hw patience 1

end Abiding

theorem abiding_reached (u : Workbench) : Abiding (Relation.ReflTransGen Stirs u) :=
  fun _ _ hw hv => hw.tail hv

theorem awaitEnding_of_told {run : Nat} {e : Ending} (h : w.desk.pacer.ending? run = some e)
    (patience : Nat) (bell : Option Nat) :
    clockwork.awaitEnding patience run bell w = (w, some e) := by
  have hended : (clockwork.pacer w).ending? run = some e := h
  unfold PacedClockwork.awaitEnding
  rw [Clockwork.goUntil_of_done _ (by simp [hended])]
  simp only [hended]

theorem idle_stirs (hidle : w.desk.running = false) (hv : Stirs w v) :
    v.desk.running = false := by
  cases hv with
  | @fire id alarm a _ _ =>
    cases alarm with
    | tick =>
      show (w.withAgenda a).tick.desk.running = false
      rw [tick_of_idle (w := w.withAgenda a) hidle]
      exact hidle
    | keeper alarm =>
      exact (congrArg Pacer.running (Desk.pacer_answerKeeper _ alarm)).trans hidle
  | pass _ _ => exact hidle

end Workbench

end TapeLab
