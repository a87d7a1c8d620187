import TapeLab.Proofs.Command
import TapeLab.Proofs.Desk.Speed
import TapeLab.Proofs.Keeper
import TapeLab.Proofs.Text.Digits
import TapeLab.Proofs.Workbench.Runs

/-!
What makes a typed command fail. Where the delay can be told, nothing that is shown fails; within
the bounds, and with a challenge that is there, nothing that is performed does. So a command fails
for its arguments alone: for fields that have no names, and for digits that stand for no number. The
one exception is a reset whose keeper has the character zero in its path.
-/

namespace TapeLab

theorem Pacer.delay_endTick {α : Type} (p : Pacer) (tick : α) (more halted : Bool) (a : Agenda α) :
    (p.endTick tick more halted a).1.delay = p.delay := by
  unfold endTick
  split
  · rfl
  · split <;> rfl

namespace Workbench

variable {c : Catalog} {kept : Session → Prop} {asked : Host → Reaction → Prop} {w : Workbench}

theorem steady_delay (asked : Operation → Prop) : Steady asked fun d => 0 ≤ d.pacer.delay where
  note _ _ h := h
  save d h := by rwa [d.pacer_scheduleSave]
  apply _ _ _ h := Operation.delay_nonneg h

theorem modest_true (ls : List Listener) : Modest (fun _ => True) ls := fun _ _ _ _ => trivial

theorem delay_nonneg_tell (h : 0 ≤ w.desk.pacer.delay) (change : Option Change) :
    0 ≤ (w.tell change).1.desk.pacer.delay :=
  ((steady_delay _).tell (modest_true _) h change).desk

theorem delay_nonneg_tick (h : 0 ≤ w.desk.pacer.delay) : 0 ≤ w.tick.desk.pacer.delay := by
  obtain hidle | ⟨o, ho, htick⟩ := w.tick_cases
  · rw [hidle]
    exact h
  · have hpacer : o.desk.pacer = w.desk.pacer.beginTick :=
      ho ▸ congrArg Gears.pacer (Desk.gears_advance _)
    have htell : 0 ≤ ({ w with desk := o.desk }.tell o.change).1.desk.pacer.delay :=
      delay_nonneg_tell (by rw [hpacer]; exact h) _
    obtain htick | ⟨v, more, hv, -, htick⟩ := htick
    · rw [htick]
      exact htell
    · rw [hv] at htell
      rw [htick]
      exact (Pacer.delay_endTick ..).symm ▸ htell

theorem Arises.delay_nonneg (h : Arises c kept asked w) : 0 ≤ w.desk.pacer.delay := by
  induction h with
  | @new settings _ _ _ _ _ hd =>
    unfold Desk.new at hd
    split at hd
    · cases hd
    · split at hd
      · cases hd
      · obtain rfl := Except.ok.inj hd
        exact Int.natCast_nonneg settings.speed
  | enter _ ih => exact ih
  | perform _ _ ih =>
    rw [perform_fst]
    exact delay_nonneg_tell (w := { desk := _, listeners := _, host := _, flagged := _ })
      (Operation.delay_nonneg ih) _
  | @stir w _ _ hv ih =>
    cases hv with
    | @fire _ alarm a _ _ =>
      cases alarm with
      | tick => exact delay_nonneg_tick (w := w.withAgenda a) ih
      | keeper alarm =>
        show 0 ≤ ((w.withAgenda a).desk.answerKeeper alarm).pacer.delay
        rw [Desk.pacer_answerKeeper]
        exact ih
    | pass _ _ => exact ih
  | subscribe _ _ _ ih => exact ih
  | unsubscribe _ hv ih =>
    obtain rfl := unsubscribe?_cases hv
    exact ih

end Workbench

namespace Desk

variable {d : Desk}

def nullPath (d : Desk) : Bool := d.keeper.any fun k => k.path.hasNull

theorem fault_clearSave (d : Desk) :
    d.clearSave.2 = if d.nullPath then some (.save (.disk .nullByte)) else none := by
  unfold clearSave nullPath
  cases d.keeper with
  | none => rfl
  | some k =>
    show (k.clear d.agenda d.disk).fault.map Fault.save = if k.path.hasNull then _ else _
    rw [k.fault_clear]
    cases k.path.hasNull <;> rfl

theorem answer_reset (h : d.work.Bounded) :
    d.reset.answer = if d.nullPath then .error (.save (.disk .nullByte)) else .ok () := by
  obtain ⟨c, hc⟩ := d.catalog.get_eq_ok h.index.1 h.index.2
  have hchallenge : d.stopRun.challenge = .ok c := hc
  obtain ⟨e, he⟩ : ∃ e, e = d.stopRun.withMachine (d.stopRun.machine.load c.cells c.head) :=
    ⟨_, rfl⟩
  have hfault : e.clearSave.2 = if d.nullPath then some (.save (.disk .nullByte)) else none :=
    he ▸ fault_clearSave _
  unfold reset
  simp only [hchallenge, ← he]
  cases hnull : d.nullPath with
  | true =>
    rw [hnull] at hfault
    rw [show e.clearSave = (e.clearSave.1, some (.save (.disk .nullByte))) from Prod.ext rfl hfault]
    rfl
  | false =>
    rw [hnull] at hfault
    rw [show e.clearSave = (e.clearSave.1, none) from Prod.ext rfl hfault]
    rfl

def Tellable (d : Desk) : Prop := 0 ≤ d.pacer.delay ∧ d.pacer.delay ≤ 10 ^ 303

end Desk

namespace Operation

variable {d : Desk} {op : Operation}

/-- Operations of typed commands that cannot fail at a desk. -/
def Certain (d : Desk) : Operation → Prop
  | .step | .undo | .addRule | .deleteRule _ | .editCell _ _ | .addCell | .removeCell => True
  | .reset => d.nullPath = false
  | .loadChallenge n => 0 ≤ n ∧ n < d.catalog.challenges.length
  | .setSpeed n => n ≤ 10 ^ 300
  | _ => False

theorem Certain.answer (h : op.Certain d) (hbounded : d.work.Bounded) :
    ∃ a, (op.apply d).answer = .ok a := by
  cases op with
  | step =>
    obtain ⟨more, hmore⟩ := Desk.advance_answer hbounded.machine.onTape hbounded.index.1
      hbounded.index.2
    show ∃ a, d.step.answer.map Answer.flag = .ok a
    unfold Desk.step
    split
    · exact ⟨_, rfl⟩
    · exact ⟨_, by rw [hmore]; rfl⟩
  | undo =>
    show ∃ a, d.undo.answer.map Answer.flag = .ok a
    rcases d.undo_cases with hundo | ⟨m, -, hundo⟩ <;> exact ⟨_, by rw [hundo]; rfl⟩
  | reset =>
    have hnull : d.nullPath = false := h
    exact ⟨.done, by
      show d.reset.answer.map (fun _ => Answer.done) = _
      rw [Desk.answer_reset hbounded, hnull]
      rfl⟩
  | loadChallenge n =>
    obtain ⟨c, hc⟩ := d.catalog.get_eq_ok h.1 h.2
    exact ⟨.done, by
      show (d.loadChallenge n).answer.map (fun _ => Answer.done) = _
      rw [d.loadChallenge_eq h.1 h.2 hc]
      rfl⟩
  | setSpeed n =>
    have hle : max n 0 ≤ 10 ^ 300 := Int.max_le.2 ⟨h, Int.pow_nonneg (by decide)⟩
    obtain ⟨m, e, hseconds, -, -⟩ := secondsOf_eq_finite (Int.le_max_right n 0) hle
    exact ⟨.done, by
      show (d.setSpeed n).answer.map (fun _ => Answer.done) = _
      rw [Desk.setSpeed, hseconds]
      rfl⟩
  | deleteRule n =>
    show ∃ a, (d.deleteRule n).answer.map Answer.flag = .ok a
    unfold Desk.deleteRule
    split <;> exact ⟨_, rfl⟩
  | editCell n value =>
    show ∃ a, (d.editCell n value).answer.map Answer.flag = .ok a
    unfold Desk.editCell
    split <;> exact ⟨_, rfl⟩
  | removeCell =>
    show ∃ a, d.removeCell.answer.map Answer.flag = .ok a
    unfold Desk.removeCell
    split <;> exact ⟨_, rfl⟩
  | addRule => exact ⟨_, rfl⟩
  | addCell => exact ⟨_, rfl⟩
  | _ => exact h.elim

theorem Certain.tellable (h : op.Certain d) (hd : d.Tellable) : (op.apply d).desk.Tellable := by
  refine ⟨delay_nonneg hd.1, ?_⟩
  by_cases hspeed : ∃ n, op = .setSpeed n
  · obtain ⟨n, rfl⟩ := hspeed
    show (d.setSpeed n).desk.pacer.delay ≤ _
    rcases d.delay_setSpeed n with hsame | hset
    · rw [hsame]
      exact hd.2
    · rw [hset]
      exact Int.max_le.2 ⟨le_of_le_ten_pow h, Int.pow_nonneg (by decide)⟩
  · rw [delay_apply (fun n hop => hspeed ⟨n, hop⟩) d]
    exact hd.2

end Operation

namespace Command

variable {w : Workbench} {op : Operation} {next : Answer → Workbench → Result}

theorem machineView_fault {d : Desk} (h : d.Tellable) : d.machineView.fault = none := by
  obtain ⟨line, hline⟩ := Desk.statusLine_eq_ok h.1 h.2
  unfold Desk.machineView
  rw [hline]

theorem challengeView_fault {d : Desk} (h : d.Tellable) (hbounded : d.work.Bounded) :
    d.challengeView.fault = none := by
  obtain ⟨c, hc⟩ := d.catalog.get_eq_ok hbounded.index.1 hbounded.index.2
  have hchallenge : d.challenge = .ok c := hc
  unfold Desk.challengeView
  rw [hchallenge]
  exact machineView_fault h

/-- A workbench at which nothing is in the way of operations and of what is shown of them. -/
structure Answering (w : Workbench) : Prop where
  silent : Workbench.Silent w.listeners
  unfailing : w.Unfailing
  shows : Open w
  bounded : w.desk.work.Bounded
  tellable : w.desk.Tellable

theorem Answering.performed (h : Answering w) (hop : op.Certain w.desk) :
    Answering (w.perform op).1 := by
  have hplain : Workbench.Restores (Work.Fits w.desk.catalog) op := by
    rintro s rfl
    exact hop.elim
  obtain ⟨hlisteners, ⟨-, hbounded⟩, hhost⟩ := Workbench.perform_keeps Workbench.bounded_becomes
    (h.silent.mono fun _ hfalse => hfalse.elim) hplain ⟨rfl, h.bounded⟩
  refine ⟨hlisteners ▸ h.silent, h.unfailing.perform op, fun o => hhost ▸ h.shows o, hbounded, ?_⟩
  unfold Desk.Tellable
  rw [Workbench.pacer_perform h.silent op]
  exact hop.tellable h.tellable

theorem Answering.perform_eq (h : Answering w) (hop : op.Certain w.desk) :
    ∃ answer, w.perform op = ((w.perform op).1, .ok answer) := by
  obtain ⟨answer, hanswer⟩ := hop.answer h.bounded
  exact ⟨answer, Prod.ext rfl ((h.unfailing.answer op).trans hanswer)⟩

theorem Answering.perform (h : Answering w) (hop : op.Certain w.desk)
    (hnext : ∀ answer v, Open v → Showed v (next answer v)) :
    (Command.perform op w next).2 = none := by
  obtain ⟨answer, hperform⟩ := h.perform_eq hop
  have hdone := h.performed hop
  have hshowed : Showed (w.perform op).1 ((next answer (w.perform op).1).andThen showMachine) :=
    (hnext answer _ hdone.shows).andThen fun _ =>
      (hdone.shows.withDesk _).showView (machineView_fault hdone.tellable)
  unfold Command.perform
  rw [hperform]
  exact hshowed.unfailed

theorem Answering.step (h : Answering w) : (Command.step w).2 = none := by
  unfold Command.step
  split
  · exact (h.shows.print _).unfailed
  · refine h.perform trivial fun answer v hv => ?_
    dsimp only
    split
    · exact showed_silently v
    · exact hv.print _

/-- The commands that fail, and how. Digits are those of any script, also outside of numerals. -/
inductive Raises (w : Workbench) : String → List String → CommandError → Prop
  | fields {index field : String} {values : List String} (digits : isDigits index = true) :
      Raises w "e" (index :: field :: values) .noFieldNames
  | number {word index : String} {cause : Text.NumeralError}
      (takes : word = "c" ∨ word = "d" ∨ word = "v") (digits : isDigits index = true)
      (unread : Text.readInt index = .error cause) : Raises w word [index] (.numeral cause)
  | cell {index : String} {values : List String} {cause : Text.NumeralError}
      (digits : isDigits index = true) (unread : Text.readInt index = .error cause) :
      Raises w "t" (index :: values) (.numeral cause)
  | file (null : w.desk.nullPath = true) : Raises w "x" [] (.fault (.save (.disk .nullByte)))

theorem withNumber_of_error {digits : String} {cause : Text.NumeralError} {next : Int → Result}
    (h : Text.readInt digits = .error cause) (w : Workbench) :
    withNumber digits w next = (w, some (.numeral cause)) := by
  unfold withNumber
  rw [h]

theorem withNumber_cases {digits : String} (h : isDigits digits = true) (w : Workbench)
    (next : Int → Result) :
    (∃ n : Nat, Text.readInt digits = .ok n ∧ withNumber digits w next = next n) ∨
      ∃ cause, Text.readInt digits = .error cause ∧
        withNumber digits w next = (w, some (.numeral cause)) := by
  by_cases unread : Text.IsUnread digits
  · obtain ⟨cause, hcause⟩ := Text.readInt_of_isUnread h unread
    exact .inr ⟨cause, hcause, withNumber_of_error hcause w⟩
  · obtain ⟨n, hn⟩ := Text.readInt_of_not_isUnread h unread
    exact .inl ⟨n, hn, by unfold withNumber; rw [hn]⟩

/-- How a command ends: with no failure, or with one that is foreseen. For its arguments it fails
before anything has happened. -/
def Foreseen (word : String) (args : List String) (w : Workbench) (r : Result) : Prop :=
  r.2 = none ∨ ∃ e, Raises w word args e ∧ r.2 = some e ∧ ((∀ f, e ≠ .fault f) → r.1 = w)

variable {word index : String} {args : List String}

theorem foreseen_withNumber (digits : isDigits index = true)
    (hraises : ∀ cause, Text.readInt index = .error cause → Raises w word args (.numeral cause))
    {next : Int → Result} (hnext : ∀ n : Nat, Text.readInt index = .ok (n : Int) →
      (next n).2 = none) : Foreseen word args w (withNumber index w next) := by
  rcases withNumber_cases digits w next with ⟨n, hn, hdone⟩ | ⟨cause, hcause, hfailed⟩
  · rw [hdone]
    exact .inl (hnext n hn)
  · rw [hfailed]
    exact .inr ⟨_, hraises cause hcause, rfl, fun _ => rfl⟩

theorem foreseen_loadChallenge (h : Answering w) (digits : isDigits index = true)
    (hraises : ∀ cause, Text.readInt index = .error cause → Raises w word args (.numeral cause)) :
    Foreseen word args w (loadChallenge index w) := by
  refine foreseen_withNumber digits hraises fun n _ => ?_
  split
  · next hn =>
    have hop : (Operation.loadChallenge n).Certain w.desk := ⟨Int.natCast_nonneg n, hn⟩
    obtain ⟨answer, hperform⟩ := h.perform_eq hop
    rw [hperform]
    have hdone := h.performed hop
    exact (hdone.shows.showView (challengeView_fault hdone.tellable hdone.bounded)).unfailed
  · exact (h.shows.print _).unfailed

/-- A reset whose keeper has no proper path fails after it has been carried out. -/
theorem perform_reset_of_null (hunfailing : w.Unfailing) (hbounded : w.desk.work.Bounded)
    (null : w.desk.nullPath = true) :
    perform .reset w (fun _ => silently) =
      ((w.perform .reset).1, some (.fault (.save (.disk .nullByte)))) := by
  have hfailed : w.perform .reset = ((w.perform .reset).1, .error (.save (.disk .nullByte))) := by
    refine Prod.ext rfl ((hunfailing.answer .reset).trans ?_)
    show w.desk.reset.answer.map (fun _ => Answer.done) = _
    rw [Desk.answer_reset hbounded, null]
    rfl
  unfold perform
  rw [hfailed]

theorem foreseen_reset (h : Answering w) :
    Foreseen "x" [] w (perform .reset w fun _ => silently) := by
  cases hnull : w.desk.nullPath with
  | false => exact .inl (h.perform hnull fun _ v _ => showed_silently v)
  | true =>
    rw [perform_reset_of_null h.unfailing h.bounded hnull]
    exact .inr ⟨_, .file hnull, rfl, fun hne => absurd rfl (hne _)⟩

theorem foreseen_handle (h : Answering w) (word : String) (args : List String)
    (hshort : ∀ digits n, word = "v" → args = [digits] → Text.readInt digits = .ok n →
      n ≤ 10 ^ 300) : Foreseen word args w (handle word args w) := by
  have hprint (outputs : List Output) : Foreseen word args w (print outputs w) :=
    .inl (h.shows.print outputs).unfailed
  unfold handle
  split
  · exact .inl h.step
  · exact .inl (h.perform trivial fun answer v hv => hv.unlessDone _ answer)
  · exact foreseen_reset h
  · split
    · next digits =>
      exact foreseen_loadChallenge h digits fun _ => .number (.inl rfl) digits
    · exact hprint _
  · split
    · next delay digits =>
      exact foreseen_withNumber digits (fun _ => .number (.inr (.inr rfl)) digits)
        fun n hn => h.perform (hshort delay n rfl rfl hn) fun _ v _ => showed_silently v
    · exact hprint _
  · exact .inl (h.perform trivial fun _ v hv => hv.print _)
  · split
    · next digits => exact .inr ⟨_, .fields digits, rfl, fun _ => rfl⟩
    · exact hprint _
  · split
    · next digits =>
      exact foreseen_withNumber digits (fun _ => .number (.inr (.inl rfl)) digits)
        fun n _ => h.perform trivial fun answer v hv =>
          (hv.unlessDone _ answer).andThen fun _ => (hv.withDesk _).print _
    · exact hprint _
  · split
    · next digits =>
      exact foreseen_withNumber digits (fun _ => .cell digits)
        fun n _ => h.perform trivial fun answer v hv => hv.unlessDone _ answer
    · exact hprint _
  · exact .inl (h.perform trivial fun _ v _ => showed_silently v)
  · exact .inl (h.perform trivial fun answer v hv => hv.unlessDone _ answer)
  · exact hprint _
  · exact hprint _
  · exact hprint _
  · exact .inl rfl
  · exact hprint _

theorem handle_of_raises (h : Answering w) {e : CommandError} (hraises : Raises w word args e) :
    (handle word args w).2 = some e := by
  cases hraises with
  | @fields index field values digits =>
    show (if isDigits index then (w, some .noFieldNames) else unknown w).2 = _
    rw [if_pos digits]
  | @number _ index cause takes digits unread =>
    rcases takes with rfl | rfl | rfl
    · show (if isDigits index then loadChallenge index w else unknown w).2 = _
      rw [if_pos digits, loadChallenge, withNumber_of_error unread]
    · show (if isDigits index then deleteRule index w else unknown w).2 = _
      rw [if_pos digits, deleteRule, withNumber_of_error unread]
    · show (if isDigits index then withNumber index w _ else unknown w).2 = _
      rw [if_pos digits, withNumber_of_error unread]
  | @cell index values cause digits unread =>
    show (if isDigits index then editCell index values w else unknown w).2 = _
    rw [if_pos digits, editCell, withNumber_of_error unread]
  | file null => exact congrArg Prod.snd (perform_reset_of_null h.unfailing h.bounded null)

end Command

namespace Workbench

variable {c : Catalog} {w : Workbench}

theorem Arises.answering (h : Arises c (Work.Fits c) Reaction.Harmless w)
    (hshows : Command.Open w) (hdelay : w.desk.pacer.delay < 10 ^ 303) : Command.Answering w :=
  ⟨h.orderly_of_any.modest, h.orderly_of_any.unfailing fun _ hr => hr, hshows,
    h.orderly_of_any.bounded, h.delay_nonneg, Int.le_of_lt hdelay⟩

end Workbench

namespace Command

/-- A command fails just for fields, since these have no names, for digits that stand for no number,
and for a reset whose keeper's path has the character zero in it. When it fails for its arguments,
nothing has been shown and nothing has changed. -/
theorem handle_raises_iff {c : Catalog} {w : Workbench}
    (h : Workbench.Arises c (Work.Fits c) Reaction.Harmless w) (hshows : ∀ o, w.host.Takes o)
    (hdelay : w.desk.pacer.delay < 10 ^ 303) (word : String) (args : List String)
    (hshort : ∀ digits n, word = "v" → args = [digits] → Text.readInt digits = .ok n →
      n ≤ 10 ^ 300) :
    (∀ e, (handle word args w).2 = some e ↔ Raises w word args e) ∧
    (∀ e, (handle word args w).2 = some e → (∀ f, e ≠ .fault f) → (handle word args w).1 = w) ∧
    ∀ digits, isDigits digits = true →
      ((∃ cause, Text.readInt digits = .error cause) ↔ Text.IsUnread digits) := by
  have hanswering := h.answering hshows hdelay
  have hforeseen := foreseen_handle hanswering word args hshort
  refine ⟨fun e => ⟨fun he => ?_, handle_of_raises hanswering⟩, fun e he hne => ?_,
    fun digits hdigits => ⟨?_, Text.readInt_of_isUnread hdigits⟩⟩
  · rcases hforeseen with hnone | ⟨e', hraises, hsome, -⟩
    · cases hnone.symm.trans he
    · obtain rfl := Option.some.inj (hsome.symm.trans he)
      exact hraises
  · rcases hforeseen with hnone | ⟨e', -, hsome, hsame⟩
    · cases hnone.symm.trans he
    · obtain rfl := Option.some.inj (hsome.symm.trans he)
      exact hsame hne
  · rintro ⟨cause, hcause⟩
    by_contra hread
    obtain ⟨n, hn⟩ := Text.readInt_of_not_isUnread hdigits hread
    cases hn.symm.trans hcause

/-- A superscript is a digit, but no number. -/
theorem superscript_raises :
    (handle "t" ["²", "1"] Workbench.firstBench).2 = some (.numeral (.malformed "²")) ∧
      (handle "t" ["²", "1"] Workbench.firstBench).1 = Workbench.firstBench := by
  have harises := Workbench.arises_firstBench (Work.Fits .standard) Reaction.Harmless
  obtain ⟨hraises, hsame, -⟩ := handle_raises_iff harises (fun _ => rfl) (by decide +kernel) "t"
    ["²", "1"] fun _ _ hword => absurd hword (by decide)
  have hunread : Text.readInt "²" = .error (.malformed "²") := by decide +kernel
  have hfails := (hraises _).2 (.cell (by decide +kernel) hunread)
  exact ⟨hfails, hsame _ hfails nofun⟩

/-- After a step, a reset takes the tape back and then fails. -/
theorem reset_raises : ∃ w, Workbench.Arises .standard (Work.Fits .standard) Reaction.Harmless w ∧
    w.desk.running = false ∧ (handle "x" [] w).2 = some (.fault (.save (.disk .nullByte))) ∧
    w.desk.machine.steps = 1 ∧ (handle "x" [] w).1.desk.machine.steps = 0 := by
  obtain ⟨d, hd⟩ : ∃ d, d = { Workbench.firstDesk with
    keeper := some (.new ⟨"", ["a\x00b"]⟩ (.finite 500) 5) } := ⟨_, rfl⟩
  have hnew : Desk.new .default .standard
      (some (.new ⟨"", ["a\x00b"]⟩ (.finite 500) 5)) .empty true = .ok d := by rw [hd]; rfl
  have harises : Workbench.Arises .standard (Work.Fits .standard) Reaction.Harmless
      (.new .plain d) :=
    @Workbench.Arises.new .standard _ _ .default (some (⟨"", ["a\x00b"]⟩, .finite 500, 5)) .empty
      true d .plain hnew
  have hplain : Workbench.Restores (Work.Fits .standard) .step := fun s hs => absurd hs (by simp)
  obtain ⟨w, hw⟩ : ∃ w, w = ((Workbench.new .plain d).perform .step).1 := ⟨_, rfl⟩
  have hstep := harises.perform hplain
  rw [← hw] at hstep
  have hshows : Open w := fun o => by rw [hw, hd]; rfl
  have hanswering : Answering w := hstep.answering hshows (by rw [hw, hd]; decide +kernel)
  have hnull : w.desk.nullPath = true := by
    rw [hw, hd]
    show Path.hasNull ⟨"", ["a\x00b"]⟩ = true
    simp [Path.hasNull]
  have hhandle : handle "x" [] w =
      ((w.perform .reset).1, some (.fault (.save (.disk .nullByte)))) :=
    perform_reset_of_null hanswering.unfailing hanswering.bounded hnull
  obtain ⟨c, hc⟩ := w.desk.catalog.get_eq_ok hanswering.bounded.index.1
    hanswering.bounded.index.2
  have hwork : (w.perform .reset).1.desk.work =
      { w.desk.work with machine := w.desk.machine.load c.cells c.head } :=
    (Workbench.calm_perform (hanswering.silent.mono fun _ hfalse => hfalse.elim) .reset).2.1.trans
      (w.desk.work_reset hc)
  refine ⟨w, hstep, by rw [hw, hd]; decide +kernel, by rw [hhandle],
    by rw [hw, hd]; decide +kernel, ?_⟩
  rw [hhandle]
  exact congrArg (fun u : Work => u.machine.steps) hwork

end Command

end TapeLab
