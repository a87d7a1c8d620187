import TapeLab.Command
import TapeLab.Proofs.Workbench.Arises
import TapeLab.Proofs.Workbench.Saving

/-!
What typed commands can bring about. They show something, and they perform operations; but none of
them goes to a saved session or begins a run. So whatever is kept by output and by such operations
is kept by every command.
-/

namespace TapeLab

/-- Operations that typed commands ask for. -/
def Operation.Typed : Operation → Prop
  | .run | .restore _ => False
  | _ => True

theorem Operation.Typed.ne_restore {op : Operation} (h : op.Typed) (s : Session) :
    op ≠ .restore s := by
  rintro rfl
  exact h

namespace Attempt

variable {ε : Type} {P : Workbench → Prop} {r : Attempt ε} {next : Workbench → Attempt ε}

theorem andThen_keeps (h : P r.1) (hnext : ∀ v, P v → P (next v).1) : P (r.andThen next).1 := by
  obtain ⟨w, _ | e⟩ := r
  · exact hnext w h
  · exact h

theorem andThen_of_none (h : (r.andThen next).2 = none) :
    r.2 = none ∧ r.andThen next = next r.1 := by
  obtain ⟨w, _ | e⟩ := r
  · exact ⟨rfl, rfl⟩
  · cases h

end Attempt

def Workbench.Shown (w : Workbench) : Prop :=
  w.host.Takes (.line w.desk.machine.snapshot.markup)

namespace Command

variable {outputs : List Output} {w : Workbench}

theorem print_eq (outputs : List Output) (w : Workbench) :
    ∃ j, (print outputs w).1 = { w with desk := { w.desk with journal := j } } := by
  have hturn : ∃ j, (Workbench.inTurn Workbench.print outputs w).1 =
      { w with desk := { w.desk with journal := j } } := by
    refine Workbench.inTurn_keeps
      (P := fun v => ∃ j, v = { w with desk := { w.desk with journal := j } })
      (fun o _ v hv => ?_) ⟨w.desk.journal, rfl⟩
    obtain ⟨j, rfl⟩ := hv
    unfold Workbench.print
    split <;> exact ⟨_, rfl⟩
  exact hturn

theorem work_print (outputs : List Output) (w : Workbench) :
    (print outputs w).1.desk.work = w.desk.work := by
  obtain ⟨j, hj⟩ := print_eq outputs w
  rw [hj]
  rfl

theorem print_eq_none (h : ∀ o ∈ outputs, w.host.Takes o) : (print outputs w).2 = none := by
  have hturn := (Workbench.inTurn_eq_none (P := fun v => v.host = w.host)
    (fun o ho v hv => ?_) rfl : _ ∧ (Workbench.inTurn Workbench.print outputs w).2 = none)
  · unfold print Attempt.mapFault
    rw [hturn.2]
    rfl
  · have htakes : v.host.refusal o = none := hv ▸ h o ho
    unfold Workbench.print
    rw [htakes]
    exact ⟨hv, rfl⟩

theorem takes_of_print (h : (print outputs w).2 = none) : ∀ o ∈ outputs, w.host.Takes o := by
  have hturn : (Workbench.inTurn Workbench.print outputs w).2 = none := by
    simpa [print, Attempt.mapFault] using h
  clear h
  induction outputs generalizing w with
  | nil => exact fun o ho => absurd ho List.not_mem_nil
  | cons o outputs ih =>
    obtain ⟨hfirst, hrest⟩ := Attempt.andThen_of_none hturn
    rw [Workbench.inTurn, hrest] at hturn
    unfold Workbench.print at hfirst hturn
    cases htakes : w.host.refusal o with
    | some message => simp [htakes] at hfirst
    | none =>
      rw [htakes] at hturn
      rintro o' (_ | ⟨_, ho'⟩)
      · exact htakes
      · exact ih hturn o' ho'

theorem showView_eq (v : Desk.View) (w : Workbench) :
    ∃ j, (showView v w).1 = { w with desk := { w.desk with journal := j } } :=
  Attempt.andThen_keeps (P := fun u => ∃ j, u = { w with desk := { w.desk with journal := j } })
    (print_eq v.outputs w) fun _ hu => hu

def Open (w : Workbench) : Prop := ∀ o, w.host.Takes o

/-- Something has been shown, and that is all. -/
structure Showed (w : Workbench) (r : Result) : Prop where
  unfailed : r.2 = none
  same : ∃ j, r.1 = { w with desk := { w.desk with journal := j } }

theorem showed_silently (w : Workbench) : Showed w (silently w) := ⟨rfl, w.desk.journal, rfl⟩

theorem Showed.andThen {r : Result} {next : Workbench → Result} (h : Showed w r)
    (hnext : ∀ j, Showed { w with desk := { w.desk with journal := j } }
      (next { w with desk := { w.desk with journal := j } })) : Showed w (r.andThen next) := by
  obtain ⟨v, fault⟩ := r
  obtain ⟨rfl, j, rfl⟩ := h
  obtain ⟨hnone, k, hk⟩ := hnext j
  exact ⟨hnone, k, hk⟩

theorem Open.withDesk (h : Open w) (d : Desk) : Open { w with desk := d } := h

theorem Open.print (h : Open w) (outputs : List Output) : Showed w (print outputs w) :=
  ⟨print_eq_none fun o _ => h o, print_eq outputs w⟩

theorem Open.unlessDone (h : Open w) (markup : String) (answer : Answer) :
    Showed w (unlessDone markup answer w) := by
  unfold Command.unlessDone
  split
  · exact h.print _
  · exact showed_silently w

theorem Open.showView (h : Open w) {v : Desk.View} (hv : v.fault = none) :
    Showed w (showView v w) := by
  refine (h.print v.outputs).andThen fun j => ?_
  rw [hv]
  exact showed_silently _

theorem shown_print (hw : w.Shown) (outputs : List Output) : (print outputs w).1.Shown := by
  obtain ⟨j, hj⟩ := print_eq outputs w
  rw [hj]
  exact hw

theorem shown_showView {v : Desk.View} (hv : .line w.desk.machine.snapshot.markup ∈ v.outputs)
    (h : (showView v w).2 = none) : (showView v w).1.Shown := by
  obtain ⟨hprint, hshow⟩ := Attempt.andThen_of_none h
  have hshown : w.Shown := takes_of_print hprint _ hv
  unfold showView
  rw [hshow]
  exact shown_print hshown _

theorem mem_machineView (d : Desk) : .line d.machine.snapshot.markup ∈ d.machineView.outputs := by
  unfold Desk.machineView
  dsimp only
  split <;> exact List.mem_cons_self

theorem shown_showMachine (h : (showMachine w).2 = none) : (showMachine w).1.Shown :=
  shown_showView (mem_machineView w.desk) h

theorem shown_showChallenge (h : (showView w.desk.challengeView w).2 = none) :
    (showView w.desk.challengeView w).1.Shown := by
  cases hc : w.desk.challenge with
  | error f =>
    have hview : w.desk.challengeView = ⟨[], some f⟩ := by rw [Desk.challengeView, hc]
    rw [hview] at h
    cases h
  | ok c =>
    refine shown_showView ?_ h
    rw [Desk.challengeView, hc]
    exact List.mem_cons_of_mem _ (List.mem_cons_of_mem _ (List.mem_cons_of_mem _
      (mem_machineView w.desk)))

theorem shown_perform {op : Operation} {next : Answer → Workbench → Result}
    (h : (perform op w next).2 = none) : (perform op w next).1.Shown := by
  unfold perform at h ⊢
  split at h
  · cases h
  · next v answer hdone =>
    obtain ⟨-, hshow⟩ := Attempt.andThen_of_none h
    rw [hshow] at h ⊢
    exact shown_showMachine h

theorem shown_withNumber {digits : String} {next : Int → Result}
    (hnext : ∀ n, (next n).2 = none → (next n).1.Shown)
    (h : (withNumber digits w next).2 = none) : (withNumber digits w next).1.Shown := by
  unfold withNumber at h ⊢
  split at h
  · cases h
  · exact hnext _ h

theorem shown_step (hw : w.Shown) (h : (step w).2 = none) : (step w).1.Shown := by
  unfold step at h ⊢
  split at h
  · next hhalted =>
    rw [if_pos hhalted]
    exact shown_print hw _
  · next hhalted =>
    rw [if_neg hhalted]
    exact shown_perform h

theorem shown_loadChallenge (hw : w.Shown) {index : String} (h : (loadChallenge index w).2 = none) :
    (loadChallenge index w).1.Shown := by
  refine shown_withNumber (fun n hn => ?_) h
  split at hn
  · next hindex =>
    rw [if_pos hindex]
    split at hn
    · cases hn
    · exact shown_showChallenge hn
  · next hindex =>
    rw [if_neg hindex]
    exact shown_print hw _

theorem shown_handle (word : String) (args : List String) (hw : w.Shown)
    (h : (handle word args w).2 = none) : (handle word args w).1.Shown := by
  have hprint (outputs : List Output) : (print outputs w).1.Shown := shown_print hw outputs
  unfold handle at h ⊢
  split at h
  · exact shown_step hw h
  · exact shown_perform h
  · exact shown_perform h
  · split at h
    · next hdigits => rw [if_pos hdigits]; exact shown_loadChallenge hw h
    · next hdigits => rw [if_neg hdigits]; exact hprint _
  · split at h
    · next hdigits => rw [if_pos hdigits]; exact shown_withNumber (fun n hn => shown_perform hn) h
    · next hdigits => rw [if_neg hdigits]; exact hprint _
  · exact shown_perform h
  · split at h
    · cases h
    · next hdigits => rw [if_neg hdigits]; exact hprint _
  · split at h
    · next hdigits => rw [if_pos hdigits]; exact shown_withNumber (fun n hn => shown_perform hn) h
    · next hdigits => rw [if_neg hdigits]; exact hprint _
  · split at h
    · next hdigits => rw [if_pos hdigits]; exact shown_withNumber (fun n hn => shown_perform hn) h
    · next hdigits => rw [if_neg hdigits]; exact hprint _
  · exact shown_perform h
  · exact shown_perform h
  · exact hprint _
  · exact hprint _
  · exact hprint _
  · exact hw
  · exact hprint _

end Command

namespace Workbench

/-- Kept by whatever is shown or logged, by what a workbench does by itself, and by the operations
that `may` be performed. -/
structure Enduring (may : Operation → Prop) (P : Workbench → Prop) : Prop where
  note : ∀ w j, P w → P { w with desk := { w.desk with journal := j } }
  stir : ∀ w v, P w → Stirs w v → P v
  perform : ∀ w op, P w → may op → P (w.perform op).1

namespace Enduring

variable {may : Operation → Prop} {P : Workbench → Prop} {w : Workbench} {op : Operation}

theorem mono {fewer : Operation → Prop} (h : Enduring may P) (hmay : ∀ op, fewer op → may op) :
    Enduring fewer P :=
  ⟨h.note, h.stir, fun w op hw hop => h.perform w op hw (hmay op hop)⟩

theorem print (h : Enduring may P) (hw : P w) (outputs : List Output) :
    P (Command.print outputs w).1 := by
  obtain ⟨j, hj⟩ := Command.print_eq outputs w
  exact hj ▸ h.note w j hw

theorem showView (h : Enduring may P) (hw : P w) (v : Desk.View) : P (Command.showView v w).1 :=
  Attempt.andThen_keeps (h.print hw _) fun _ hv => hv

theorem command_perform (h : Enduring may P) (hw : P w) (hop : may op)
    {next : Answer → Workbench → Command.Result} (hnext : ∀ answer v, P v → P (next answer v).1) :
    P (Command.perform op w next).1 := by
  have hperform := h.perform w op hw hop
  unfold Command.perform
  split
  · next v f hfailed => rwa [hfailed] at hperform
  · next v answer hdone =>
    rw [hdone] at hperform
    exact Attempt.andThen_keeps (hnext answer v hperform) fun u hu => h.showView hu _

theorem unlessDone (h : Enduring may P) (markup : String) (answer : Answer) (hw : P w) :
    P (Command.unlessDone markup answer w).1 := by
  unfold Command.unlessDone
  split
  · exact h.print hw _
  · exact hw

theorem withNumber (hw : P w) (digits : String) {next : Int → Command.Result}
    (hnext : ∀ n, P (next n).1) : P (Command.withNumber digits w next).1 := by
  unfold Command.withNumber
  split
  · exact hw
  · exact hnext _

theorem command_step (h : Enduring may P) (hw : P w) (hmay : may .step) :
    P (Command.step w).1 := by
  unfold Command.step
  split
  · exact h.print hw _
  · refine h.command_perform hw hmay fun answer v hv => ?_
    dsimp only
    split
    · exact hv
    · exact h.print hv _

theorem command_loadChallenge (h : Enduring may P) (hw : P w)
    (hmay : ∀ n, may (.loadChallenge n)) (index : String) :
    P (Command.loadChallenge index w).1 := by
  refine withNumber hw index fun n => ?_
  split
  · have hperform := h.perform w (.loadChallenge n) hw (hmay n)
    split
    · next v f hfailed => rwa [hfailed] at hperform
    · next v answer hdone =>
      rw [hdone] at hperform
      exact h.showView hperform _
  · exact h.print hw _

theorem handle (h : Enduring may P) (hmay : ∀ op : Operation, op.Typed → may op) (word : String)
    (args : List String) (hw : P w) : P (Command.handle word args w).1 := by
  have hprint (outputs : List Output) : P (Command.print outputs w).1 := h.print hw outputs
  have hperform (op : Operation) (hop : op.Typed) {next : Answer → Workbench → Command.Result}
      (hnext : ∀ answer v, P v → P (next answer v).1) : P (Command.perform op w next).1 :=
    h.command_perform hw (hmay op hop) hnext
  unfold Command.handle
  split
  · exact h.command_step hw (hmay .step trivial)
  · exact hperform .undo trivial fun answer v hv => h.unlessDone _ answer hv
  · exact hperform .reset trivial fun _ _ hv => hv
  · split
    · exact h.command_loadChallenge hw (fun n => hmay (.loadChallenge n) trivial) _
    · exact hprint _
  · split
    · exact withNumber hw _ fun n => hperform (.setSpeed n) trivial fun _ _ hv => hv
    · exact hprint _
  · exact hperform .addRule trivial fun _ _ hv => h.print hv _
  · split
    · exact hw
    · exact hprint _
  · split
    · exact withNumber hw _ fun n => hperform (.deleteRule n) trivial fun answer _ hv =>
        Attempt.andThen_keeps (h.unlessDone _ answer hv) fun u hu => h.print hu _
    · exact hprint _
  · split
    · exact withNumber hw _ fun n => hperform (.editCell n _) trivial fun answer _ hv =>
        h.unlessDone _ answer hv
    · exact hprint _
  · exact hperform .addCell trivial fun _ _ hv => hv
  · exact hperform .removeCell trivial fun answer _ hv => h.unlessDone _ answer hv
  · exact hprint _
  · exact hprint _
  · exact hprint _
  · exact hw
  · exact hprint _

end Enduring

end Workbench

end TapeLab
