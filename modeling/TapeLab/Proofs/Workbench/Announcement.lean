import TapeLab.Workbench
import TapeLab.Proofs.Desk.Work

/-!
What announcements can change. Listeners write into the journal and ask for operations, whose
changes are announced in turn; so whatever journal entries, saves and those operations keep,
announcements of any depth keep, whether they fail or not. For the work of a desk this is what
`Work.Becomes` keeps.
-/

namespace TapeLab

def Listener.Asks (l : Listener) (op : Operation) : Prop := ∃ d, .perform op ∈ l.react d

namespace Reaction

def Asking (asked : Operation → Prop) (_ : Host) : Reaction → Prop
  | .perform op => asked op
  | _ => True

/-- Asks for no operation, and does not fail. -/
def Harmless (host : Host) : Reaction → Prop
  | .perform _ => False
  | .print output => host.Takes output
  | _ => True

end Reaction

def Desk.endTick (more : Bool) (d : Desk) : Desk :=
  d.withPacer (d.pacer.endTick .tick more d.machine.halted d.agenda)

namespace Workbench

section InTurn

variable {α ε : Type} {f : α → Workbench → Attempt ε} {as : List α} {w : Workbench}
  {P : Workbench → Prop}

theorem inTurn_append (f : α → Workbench → Attempt ε) (as bs : List α) (w : Workbench) :
    inTurn f (as ++ bs) w = (inTurn f as w).andThen (inTurn f bs) := by
  induction as generalizing w with
  | nil => rfl
  | cons a as ih =>
    simp only [List.cons_append, inTurn]
    rcases f a w with ⟨v, _ | fault⟩
    · exact ih v
    · rfl

theorem inTurn_keeps (hf : ∀ a ∈ as, ∀ w, P w → P (f a w).1) (hw : P w) : P (inTurn f as w).1 := by
  induction as generalizing w with
  | nil => exact hw
  | cons a as ih =>
    have ha := hf a List.mem_cons_self w hw
    rw [inTurn]
    rcases hv : f a w with ⟨v, _ | fault⟩ <;> rw [hv] at ha
    · exact ih (fun b hb => hf b (List.mem_cons_of_mem a hb)) ha
    · exact ha

theorem inTurn_eq_none (hf : ∀ a ∈ as, ∀ w, P w → P (f a w).1 ∧ (f a w).2 = none) (hw : P w) :
    P (inTurn f as w).1 ∧ (inTurn f as w).2 = none := by
  induction as generalizing w with
  | nil => exact ⟨hw, rfl⟩
  | cons a as ih =>
    obtain ⟨ha, hnone⟩ := hf a List.mem_cons_self w hw
    rw [inTurn]
    rcases hv : f a w with ⟨v, fault⟩
    rw [hv] at ha hnone
    obtain rfl : fault = none := hnone
    exact ih (fun b hb => hf b (List.mem_cons_of_mem a hb)) ha

end InTurn

/-- Kept by everything that listeners can bring about, if they ask for `asked` operations only. -/
structure Steady (asked : Operation → Prop) (P : Desk → Prop) : Prop where
  note : ∀ d j, P d → P { d with journal := j }
  save : ∀ d, P d → P d.scheduleSave
  apply : ∀ d op, asked op → P d → P (op.apply d).desk

def Modest (asked : Operation → Prop) (ls : List Listener) : Prop :=
  ∀ l ∈ ls, ∀ op, l.Asks op → asked op

def Reacting (asked : Reaction → Prop) (ls : List Listener) : Prop :=
  ∀ l ∈ ls, ∀ d, ∀ r ∈ l.react d, asked r

theorem Reacting.modest {asked : Reaction → Prop} {may : Operation → Prop} {ls : List Listener}
    (h : Reacting asked ls) (hmay : ∀ op, asked (.perform op) → may op) : Modest may ls := by
  rintro l hl op ⟨d, hd⟩
  exact hmay op (h l hl d _ hd)

structure Stands (P : Desk → Prop) (u w : Workbench) : Prop where
  listeners : w.listeners = u.listeners
  desk : P w.desk
  host : w.host = u.host

variable {asked : Operation → Prop} {P : Desk → Prop} {u w : Workbench}

theorem Stands.of_desk {d : Desk} (h : Stands P { u with desk := d } w) : Stands P u w :=
  ⟨h.listeners, h.desk, h.host⟩

theorem Steady.tellBy (h : Steady asked P) (hls : Modest asked u.listeners)
    {serve : Reaction → Workbench → Attempt Fault}
    (hserve : ∀ r, (∀ op, r = .perform op → asked op) →
      ∀ w, Stands P u w → Stands P u (serve r w).1)
    (hw : Stands P u w) (change : Option Change) : Stands P u (w.tellBy serve change).1 := by
  have hannounce (w : Workbench) (hw : Stands P u w) : Stands P u (announce serve w).1 := by
    refine inTurn_keeps (fun l hl v hv => ?_) hw
    rw [hw.listeners] at hl
    exact inTurn_keeps
      (fun r hr => hserve r fun op hop => hls l hl op ⟨v.desk, hop ▸ hr⟩) hv
  cases change with
  | none => exact hw
  | some change =>
    cases change with
    | kept => exact hannounce _ ⟨hw.listeners, h.save _ hw.desk, hw.host⟩
    | passing => exact hannounce w hw

theorem Steady.serve (h : Steady asked P) (hls : Modest asked u.listeners) (depth : Nat)
    (r : Reaction) (hr : ∀ op, r = .perform op → asked op) (w : Workbench) (hw : Stands P u w) :
    Stands P u (serve depth r w).1 := by
  -- what is announced in turn has one level less to go
  induction depth generalizing r w with
  | zero =>
    cases r with
    | note entry => exact ⟨hw.listeners, h.note _ _ hw.desk, hw.host⟩
    | print output =>
      show Stands P u (print output w).1
      unfold print
      split
      · exact ⟨hw.listeners, h.note _ _ hw.desk, hw.host⟩
      · exact hw
    | flag => exact ⟨hw.listeners, hw.desk, hw.host⟩
    | perform op => exact hw
  | succ depth ih =>
    cases r with
    | perform op =>
      have happly : Stands P u { w with desk := (op.apply w.desk).desk } :=
        ⟨hw.listeners, h.apply _ _ (hr op rfl) hw.desk, hw.host⟩
      have htell := h.tellBy hls ih happly (op.apply w.desk).change
      rw [Workbench.serve]
      rcases hv : Workbench.tellBy _ _ _ with ⟨v, _ | fault⟩ <;> rw [hv] at htell
      · exact htell
      · exact htell
    | note entry => exact ⟨hw.listeners, h.note _ _ hw.desk, hw.host⟩
    | print output =>
      show Stands P u (print output w).1
      unfold print
      split
      · exact ⟨hw.listeners, h.note _ _ hw.desk, hw.host⟩
      · exact hw
    | flag => exact ⟨hw.listeners, hw.desk, hw.host⟩

theorem Steady.tell (h : Steady asked P) (hls : Modest asked w.listeners) (hP : P w.desk)
    (change : Option Change) : Stands P w (w.tell change).1 :=
  h.tellBy hls (h.serve hls _) ⟨rfl, hP, rfl⟩ change

def announced (op : Operation) (w : Workbench) : Attempt Fault :=
  { w with desk := (op.apply w.desk).desk }.tell (op.apply w.desk).change

theorem announce_of_singleton {l : Listener} (hl : w.listeners = [l])
    (serve : Reaction → Workbench → Attempt Fault) :
    announce serve w = inTurn serve (l.react w.desk) w := by
  rw [announce, hl]
  show (inTurn serve (l.react w.desk) w).andThen (inTurn (attend serve) []) = _
  rcases inTurn serve (l.react w.desk) w with ⟨v, _ | fault⟩ <;> rfl

theorem perform_fst (op : Operation) (w : Workbench) : (w.perform op).1 = (w.announced op).1 := by
  rw [perform, announced]
  rcases tell _ _ with ⟨v, _ | fault⟩ <;> rfl

theorem perform_snd (op : Operation) (w : Workbench) :
    (w.perform op).2 = (w.announced op).2.elim (op.apply w.desk).answer .error := by
  rw [perform, announced]
  rcases tell _ _ with ⟨v, _ | fault⟩ <;> rfl

theorem perform_of_silent {op : Operation} (h : (op.apply w.desk).change = none) :
    w.perform op = ({ w with desk := (op.apply w.desk).desk }, (op.apply w.desk).answer) := by
  rw [perform, h]
  rfl

theorem perform_of_told {v : Workbench} {op : Operation} {d : Desk} {answer : Answer}
    {change : Change} (happly : op.apply w.desk = .changed d answer change)
    (htold : { w with desk := d }.tell (some change) = (v, none)) :
    w.perform op = (v, .ok answer) := by
  have hannounced : w.announced op = (v, none) := by
    rw [announced, happly]
    exact htold
  refine Prod.ext ?_ ?_
  · rw [perform_fst, hannounced]
  · rw [perform_snd, hannounced, happly]
    rfl

theorem Steady.perform (h : Steady asked P) (hls : Modest asked w.listeners) {op : Operation}
    (hP : P (op.apply w.desk).desk) : Stands P w (w.perform op).1 := by
  rw [perform_fst]
  exact (h.tell (w := { w with desk := (op.apply w.desk).desk }) hls hP _).of_desk

theorem steady_true : Steady (fun _ => True) fun _ => True :=
  ⟨fun _ _ _ => trivial, fun _ _ => trivial, fun _ _ _ _ => trivial⟩

/-- Whatever they are told, none of the listeners fails. -/
def Unfailing (w : Workbench) : Prop :=
  ∀ d flag change, (tell { w with desk := d, flagged := flag } change).2 = none

theorem Unfailing.of_frame {v : Workbench} (h : w.Unfailing)
    (hlisteners : v.listeners = w.listeners) (hhost : v.host = w.host) : v.Unfailing := by
  obtain ⟨d, ls, host, flag⟩ := v
  obtain rfl : ls = w.listeners := hlisteners
  obtain rfl : host = w.host := hhost
  exact h

theorem Unfailing.stands {v : Workbench} (h : w.Unfailing) (hv : Stands P w v) : v.Unfailing :=
  h.of_frame hv.listeners hv.host

theorem stands_perform (op : Operation) (w : Workbench) :
    Stands (fun _ => True) w (w.perform op).1 :=
  steady_true.perform (fun _ _ _ _ => trivial) trivial

theorem Unfailing.perform (h : w.Unfailing) (op : Operation) : (w.perform op).1.Unfailing :=
  h.stands (stands_perform op w)

theorem Unfailing.announced (h : w.Unfailing) (op : Operation) : (w.announced op).2 = none :=
  h _ w.flagged _

theorem Unfailing.answer (h : w.Unfailing) (op : Operation) :
    (w.perform op).2 = (op.apply w.desk).answer := by
  rw [perform_snd, h.announced]
  rfl

theorem tell_of_harmless (h : ∀ l ∈ w.listeners, ∀ d, d.machine = w.desk.machine →
    ∀ r ∈ l.react d, r.Harmless w.host) (change : Option Change) : (w.tell change).2 = none := by
  -- no reaction changes the machine, so all listeners are told of this one
  let P := Stands (fun d => d.machine = w.desk.machine) w
  have hserve (depth : Nat) (r : Reaction) (hr : r.Harmless w.host) (v : Workbench) (hv : P v) :
      P (serve depth r v).1 ∧ (serve depth r v).2 = none := by
    cases r with
    | perform op => exact hr.elim
    | note entry => cases depth <;> exact ⟨⟨hv.listeners, hv.desk, hv.host⟩, rfl⟩
    | flag => cases depth <;> exact ⟨⟨hv.listeners, hv.desk, hv.host⟩, rfl⟩
    | print output =>
      have htakes : v.host.refusal output = none := by rw [hv.host]; exact hr
      have hprint : serve depth (.print output) v = v.print output := by cases depth <;> rfl
      rw [hprint, print, htakes]
      exact ⟨⟨hv.listeners, hv.desk, hv.host⟩, rfl⟩
  have hannounce (depth : Nat) (v : Workbench) (hv : P v) :
      (announce (serve depth) v).2 = none := by
    refine (inTurn_eq_none (P := P) (fun l hl u hu => ?_) hv).2
    rw [hv.listeners] at hl
    exact inTurn_eq_none (fun r hr => hserve depth r (h l hl u.desk hu.desk r hr)) hu
  rcases change with _ | _ | _
  · rfl
  · exact hannounce _ { w with desk := w.desk.scheduleSave }
      ⟨rfl, congrArg Work.machine w.desk.work_scheduleSave, rfl⟩
  · exact hannounce _ w ⟨rfl, rfl, rfl⟩

theorem unfailing_of_harmless (h : Reacting (Reaction.Harmless w.host) w.listeners) :
    w.Unfailing :=
  fun d flag change => tell_of_harmless (w := { w with desk := d, flagged := flag })
    (fun l hl d _ => h l hl d) change

theorem unfailing_of_nil (h : w.listeners = []) : w.Unfailing :=
  unfailing_of_harmless fun _ hl => absurd (h ▸ hl) List.not_mem_nil

section Work

variable {kept : Session → Prop} {Q : Work → Prop}

def Restores (kept : Session → Prop) (op : Operation) : Prop := ∀ s, op = .restore s → kept s

theorem steady_work (hQ : ∀ u v, Q u → Work.Becomes kept u v → Q v) :
    Steady (Restores kept) fun d => Q d.work where
  note _ _ h := h
  save d h := by rwa [Desk.work_scheduleSave]
  apply d op hop h := hQ _ _ h (op.becomes kept d hop)

theorem perform_keeps (hQ : ∀ u v, Q u → Work.Becomes kept u v → Q v)
    (hls : Modest (Restores kept) w.listeners) {op : Operation} (hop : Restores kept op)
    (h : Q w.desk.work) :
    Stands (fun d => Q d.work) w (w.perform op).1 :=
  (steady_work hQ).perform hls (hQ _ _ h (op.becomes kept w.desk hop))

theorem tick_cases (w : Workbench) :
    w.tick = { w with desk := { w.desk with pacer := w.desk.pacer.beginTick } } ∨
    ∃ o, o = Desk.advance { w.desk with pacer := w.desk.pacer.beginTick } ∧
      (w.tick = ({ w with desk := o.desk }.tell o.change).1 ∨
        ∃ v more, { w with desk := o.desk }.tell o.change = (v, none) ∧ o.answer = .ok more ∧
          w.tick = { v with desk := v.desk.endTick more }) := by
  unfold tick
  dsimp only
  split
  · exact .inl rfl
  · refine .inr ⟨_, rfl, ?_⟩
    split
    · next v more htell hanswer => exact .inr ⟨v, more, htell, hanswer, rfl⟩
    · next v fault _ htell hanswer => exact .inl (congrArg Prod.fst htell).symm

theorem tick_keeps (hQ : ∀ u v, Q u → Work.Becomes kept u v → Q v)
    (hls : Modest (Restores kept) w.listeners) (h : Q w.desk.work) :
    Stands (fun d => Q d.work) w w.tick := by
  obtain hidle | ⟨o, ho, htick⟩ := w.tick_cases
  · rw [hidle]
    exact ⟨rfl, h, rfl⟩
  · have hadvance : Q o.desk.work := by
      rw [ho, Desk.work_advance]
      exact hQ _ _ h .advanced
    have htell := ((steady_work hQ).tell (w := { w with desk := o.desk }) hls hadvance
      o.change).of_desk
    obtain htick | ⟨v, more, hv, -, htick⟩ := htick
    · rw [htick]
      exact htell
    · rw [hv] at htell
      rw [htick]
      exact ⟨htell.listeners, htell.desk, htell.host⟩

theorem fire_keeps (hQ : ∀ u v, Q u → Work.Becomes kept u v → Q v)
    (hls : Modest (Restores kept) w.listeners) (h : Q w.desk.work) (alarm : Alarm) :
    Stands (fun d => Q d.work) w (w.fire alarm) := by
  cases alarm with
  | tick => exact tick_keeps hQ hls h
  | keeper alarm => exact ⟨rfl, by simpa only [fire, Desk.work_answerKeeper] using h, rfl⟩

theorem stands_fire (w : Workbench) (alarm : Alarm) : Stands (fun _ => True) w (w.fire alarm) :=
  @fire_keeps w (fun _ => True) (fun _ => True) (fun _ _ _ _ => trivial)
    (fun _ _ _ _ _ _ => trivial) trivial alarm

end Work

end Workbench

end TapeLab
