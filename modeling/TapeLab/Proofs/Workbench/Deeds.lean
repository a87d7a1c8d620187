import TapeLab.Proofs.Workbench.Calm

/-!
What listeners do in the middle of an event. A deed is an operation that somebody performs, with the
workbench just before it and the one at which it has returned; in the course of an announcement it
is one that a listener asks for, or that is asked for in the course of what this one announces.
Between the deeds of an event, and after the last one, nothing is done but what listeners ask for.
-/

namespace TapeLab

namespace Workbench

/-- What can come of a desk by entries in the journal, saves and `asked` operations. -/
inductive Doings (asked : Operation → Prop) (d : Desk) : Desk → Prop
  | none : Doings asked d d
  | note {e : Desk} (j : Journal) : Doings asked d e → Doings asked d { e with journal := j }
  | save {e : Desk} : Doings asked d e → Doings asked d e.scheduleSave
  | perform {e : Desk} {op : Operation} :
      Doings asked d e → asked op → Doings asked d (op.apply e).desk

variable {asked : Operation → Prop} {P : Desk → Prop} {d e f : Desk} {w v : Workbench}
  {ls : List Listener}

theorem steady_doings (asked : Operation → Prop) (d : Desk) : Steady asked (Doings asked d) where
  note _ j h := h.note j
  save _ h := h.save
  apply _ _ hop h := h.perform hop

theorem Steady.doings (h : Steady asked P) (hd : P d) (he : Doings asked d e) : P e := by
  induction he with
  | none => exact hd
  | note j _ ih => exact h.note _ j ih
  | save _ ih => exact h.save _ ih
  | perform _ hop ih => exact h.apply _ _ hop ih

theorem Doings.trans (h : Doings asked d e) (h' : Doings asked e f) : Doings asked d f :=
  (steady_doings asked d).doings h h'

theorem doings_perform (hls : Modest asked w.listeners) (op : Operation) :
    Doings asked (op.apply w.desk).desk (w.perform op).1.desk :=
  ((steady_doings asked _).perform hls .none).desk

theorem Doings.work (h : Doings asked d e) (hasked : ∀ op, asked op → op.Pacing) :
    e.work = d.work := by
  induction h with
  | none => rfl
  | note _ _ ih => exact ih
  | save _ ih => exact (Desk.work_scheduleSave _).trans ih
  | perform _ hop ih => exact ((hasked _ hop).work _).trans ih

structure Deed where
  op : Operation
  before : Workbench
  after : Workbench

mutual

/-- The deed is done in the course of an announcement. -/
inductive Announces : Nat → Workbench → Deed → Prop
  | reaction {depth : Nat} {w u v : Workbench} {told rest : List Listener} {l : Listener}
      {served more : List Reaction} {r : Reaction} {x : Deed} :
      w.listeners = told ++ l :: rest → inTurn (attend (serve depth)) told w = (u, none) →
      l.react u.desk = served ++ r :: more → inTurn (serve depth) served u = (v, none) →
      Serves depth r v x → Announces depth w x

inductive Tells : Nat → Workbench → Option Change → Deed → Prop
  | kept {depth : Nat} {w : Workbench} {x : Deed} :
      Announces depth { w with desk := w.desk.scheduleSave } x → Tells depth w (some .kept) x
  | passing {depth : Nat} {w : Workbench} {x : Deed} :
      Announces depth w x → Tells depth w (some .passing) x

inductive Serves : Nat → Reaction → Workbench → Deed → Prop
  | this {depth : Nat} {op : Operation} {w : Workbench} :
      Serves (depth + 1) (.perform op) w ⟨op, w, (serve (depth + 1) (.perform op) w).1⟩
  | told {depth : Nat} {op : Operation} {w : Workbench} {x : Deed} :
      Tells depth { w with desk := (op.apply w.desk).desk } (op.apply w.desk).change x →
      Serves (depth + 1) (.perform op) w x

end

/-- A deed between two moments, apart from which nothing is done but what listeners ask for. -/
structure Deed.Within (asked : Operation → Prop) (start finish : Desk) (x : Deed) : Prop where
  earlier : Doings asked start x.before.desk
  during : Doings asked (x.op.apply x.before.desk).desk x.after.desk
  later : Doings asked x.after.desk finish

theorem Deed.Within.extend {x : Deed} {g : Desk} (hstart : Doings asked d e)
    (h : x.Within asked e f) (hfinish : Doings asked f g) : x.Within asked d g :=
  ⟨hstart.trans h.earlier, h.during, h.later.trans hfinish⟩

section InTurn

variable {α : Type} {f : α → Workbench → Attempt Fault}

def Serving (asked : Operation → Prop) (ls : List Listener) (f : Workbench → Attempt Fault) :
    Prop :=
  ∀ w, w.listeners = ls → (f w).1.listeners = ls ∧ Doings asked w.desk (f w).1.desk

theorem Serving.inTurn {as : List α} (h : ∀ a ∈ as, Serving asked ls (f a)) :
    Serving asked ls (inTurn f as) := by
  intro w hw
  refine inTurn_keeps (P := fun v => v.listeners = ls ∧ Doings asked w.desk v.desk)
    (fun a ha v hv => ?_) ⟨hw, .none⟩
  obtain ⟨hlisteners, hdesk⟩ := h a ha v hv.1
  exact ⟨hlisteners, hv.2.trans hdesk⟩

theorem Deed.Within.inTurn {before after : List α} {a : α} {x : Deed}
    (h : ∀ b ∈ before ++ a :: after, Serving asked ls (f b)) (hw : w.listeners = ls)
    (hv : Workbench.inTurn f before w = (v, none))
    (hx : x.Within asked v.desk (f a v).1.desk) :
    x.Within asked w.desk (Workbench.inTurn f (before ++ a :: after) w).1.desk := by
  obtain ⟨hlisteners, hbefore⟩ :=
    Serving.inTurn (fun b hb => h b (List.mem_append_left _ hb)) w hw
  rw [hv] at hlisteners hbefore
  obtain ⟨hlisteners', -⟩ := h a (by simp) v hlisteners
  rw [inTurn_append, hv]
  show x.Within asked w.desk ((f a v).andThen (Workbench.inTurn f after)).1.desk
  rcases hu : f a v with ⟨u, _ | fault⟩ <;> rw [hu] at hx hlisteners'
  · obtain ⟨-, hafter⟩ := Serving.inTurn
      (fun b hb => h b (List.mem_append_right _ (List.mem_cons_of_mem _ hb))) u hlisteners'
    exact hx.extend hbefore hafter
  · exact hx.extend hbefore .none

end InTurn

variable {x : Deed} {r : Reaction} {op : Operation}

theorem serve_perform (depth : Nat) (op : Operation) (w : Workbench) :
    (serve (depth + 1) (.perform op) w).1 =
      (tellBy (serve depth) { w with desk := (op.apply w.desk).desk }
        (op.apply w.desk).change).1 := by
  rw [serve]
  rcases tellBy _ _ _ with ⟨v, _ | fault⟩ <;> rfl

theorem serving_serve (hls : Modest asked ls) (depth : Nat)
    (hr : ∀ op, r = .perform op → asked op) : Serving asked ls (serve depth r) := by
  rintro w rfl
  have hserve := (steady_doings asked w.desk).serve hls depth r hr w ⟨rfl, .none, rfl⟩
  exact ⟨hserve.listeners, hserve.desk⟩

theorem serving_attend (hls : Modest asked ls) (depth : Nat) {l : Listener} (hl : l ∈ ls) :
    Serving asked ls (attend (serve depth) l) := fun w hw =>
  Serving.inTurn
    (fun _ hr => serving_serve hls depth fun op hop => hls l hl op ⟨w.desk, hop ▸ hr⟩) w hw

theorem serving_announce (hls : Modest asked ls) (depth : Nat) :
    Serving asked ls (announce (serve depth)) := by
  rintro w rfl
  exact Serving.inTurn (fun l hl => serving_attend hls depth hl) w rfl

theorem Announces.within {depth : Nat} (hls : Modest asked ls)
    (hserves : ∀ r w x, (∀ op, r = .perform op → asked op) → w.listeners = ls →
      Serves depth r w x → x.Within asked w.desk (serve depth r w).1.desk)
    (hw : w.listeners = ls) (hx : Announces depth w x) :
    x.Within asked w.desk (announce (serve depth) w).1.desk := by
  cases hx with
  | @reaction _ _ u v told rest l served more r _ hlisteners hu hreact hv hx =>
    have hall (k : Listener) (hk : k ∈ told ++ l :: rest) :
        Serving asked ls (attend (serve depth) k) :=
      serving_attend hls depth (by rwa [← hw, hlisteners])
    have hasks (r : Reaction) (hr : r ∈ l.react u.desk) (op : Operation)
        (hop : r = .perform op) : asked op :=
      hls l (by simp [← hw, hlisteners]) op ⟨u.desk, hop ▸ hr⟩
    have hserved (s : Reaction) (hs : s ∈ served ++ r :: more) :
        Serving asked ls (serve depth s) :=
      serving_serve hls depth (hasks s (by rwa [hreact]))
    have htold := (Serving.inTurn (fun k hk => hall k (List.mem_append_left _ hk)) w hw).1
    rw [hu] at htold
    have hbefore := (Serving.inTurn (fun s hs => hserved s (List.mem_append_left _ hs)) u htold).1
    rw [hv] at hbefore
    -- the deed is done while one reaction is served, and so while one listener is attended to
    have hattended : x.Within asked u.desk (attend (serve depth) l u).1.desk := by
      rw [attend, hreact]
      exact (hserves r v x (hasks r (by simp [hreact])) hbefore hx).inTurn hserved htold hv
    rw [announce, hlisteners]
    exact hattended.inTurn hall hw hu

theorem Tells.within_tellBy {depth : Nat} (hls : Modest asked ls)
    (hserves : ∀ r w x, (∀ op, r = .perform op → asked op) → w.listeners = ls →
      Serves depth r w x → x.Within asked w.desk (serve depth r w).1.desk)
    (hw : w.listeners = ls) {change : Option Change} (hx : Tells depth w change x) :
    x.Within asked w.desk (w.tellBy (serve depth) change).1.desk := by
  cases hx with
  | kept hx =>
    exact (hx.within (w := { w with desk := w.desk.scheduleSave }) hls hserves hw).extend
      Doings.none.save .none
  | passing hx => exact hx.within hls hserves hw

theorem Serves.within (hls : Modest asked ls) (depth : Nat) (r : Reaction) (w : Workbench)
    (x : Deed) (hr : ∀ op, r = .perform op → asked op) (hw : w.listeners = ls)
    (hx : Serves depth r w x) : x.Within asked w.desk (serve depth r w).1.desk := by
  -- what is announced in turn has one level less to go
  induction depth generalizing r w x with
  | zero => cases hx
  | succ depth ih =>
    cases hx with
    | @this _ op _ =>
      refine ⟨.none, ?_, .none⟩
      show Doings asked (op.apply w.desk).desk (serve (depth + 1) (.perform op) w).1.desk
      rw [serve_perform]
      rcases (op.apply w.desk).change with _ | _ | _
      · exact .none
      · exact Doings.none.save.trans (serving_announce hls depth
          { w with desk := (op.apply w.desk).desk.scheduleSave } hw).2
      · exact (serving_announce hls depth { w with desk := (op.apply w.desk).desk } hw).2
    | @told _ op _ _ hx =>
      rw [serve_perform]
      exact (hx.within_tellBy (w := { w with desk := (op.apply w.desk).desk }) hls ih hw).extend
        (.perform .none (hr op rfl)) .none

theorem Tells.within (hls : Modest asked w.listeners) {change : Option Change}
    (hx : Tells w.host.depth w change x) : x.Within asked w.desk (w.tell change).1.desk :=
  hx.within_tellBy hls (Serves.within hls _) rfl

end Workbench

end TapeLab
