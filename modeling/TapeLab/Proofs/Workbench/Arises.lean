import TapeLab.Proofs.Workbench.Reachable
import TapeLab.Proofs.Workbench.Tick

/-!
Workbenches with the gears that drive them. A workbench `Stirs` by itself when a live timer fires or
time passes; it `Arises` from a new one when operations are performed, too, listeners come and go,
and the event loop is entered, once and for all. The sessions that are restored, and the ways in
which listeners react, are parameters here: as long as the sessions fit, the work stays in its
bounds and, if listeners are harmless, the desk in step.
-/

namespace TapeLab

namespace Workbench

/-- What a workbench does by itself. -/
inductive Stirs (w : Workbench) : Workbench → Prop
  | fire {id : Nat} {alarm : Alarm} {a : Agenda Alarm} :
      w.desk.agenda.alarms.Perm ((id, alarm) :: a.alarms) → a.next = w.desk.agenda.next →
      Stirs w ((w.withAgenda a).fire alarm)
  | pass {a : Agenda Alarm} :
      w.desk.agenda.alarms.Perm a.alarms → w.desk.agenda.next ≤ a.next →
      Stirs w (w.withAgenda a)

def enterLoop (w : Workbench) : Workbench := { w with desk := { w.desk with loop := true } }

/-- The workbenches that arise with the challenges `c`, if sessions that are restored are `kept`
ones, and if listeners react in `asked` ways only. -/
inductive Arises (c : Catalog) (kept : Session → Prop) (asked : Host → Reaction → Prop) :
    Workbench → Prop
  | new {settings : Settings} {store : Option (Path × Time × Int)} {disk : Tree} {loop : Bool}
      {d : Desk} {host : Host} :
      Desk.new settings c (store.map fun s => Keeper.new s.1 s.2.1 s.2.2) disk loop = .ok d →
      Arises c kept asked (.new host d)
  | enter {w : Workbench} : Arises c kept asked w → Arises c kept asked w.enterLoop
  | perform {w : Workbench} {op : Operation} :
      Arises c kept asked w → Restores kept op → Arises c kept asked (w.perform op).1
  | stir {w v : Workbench} : Arises c kept asked w → Stirs w v → Arises c kept asked v
  | subscribe {w : Workbench} {l : Listener} :
      Arises c kept asked w → (∀ d, ∀ r ∈ l.react d, asked w.host r) →
      (∀ op, l.Asks op → Restores kept op) → Arises c kept asked (w.subscribe l)
  | unsubscribe {w v : Workbench} {key : String} :
      Arises c kept asked w → w.unsubscribe? key = some v → Arises c kept asked v

theorem arises_firstBench (kept : Session → Prop) (asked : Host → Reaction → Prop) :
    Arises .standard kept asked firstBench :=
  @Arises.new .standard kept asked .default none .empty true firstDesk .plain new_firstDesk

variable {c : Catalog} {asked : Host → Reaction → Prop} {only : Prop} {w v : Workbench}

theorem Arises.keeps {kept : Session → Prop} {P : Work → Prop} (h : Arises c kept asked w)
    (hnew : ∀ (first : Challenge) (bounds : History.Bounds),
      P ⟨c, 0, .start ⟨first.rules⟩ (.ofCells first.cells) first.head initialState 0 bounds⟩)
    (hbecomes : ∀ u v, P u → Work.Becomes kept u v → P v) :
    Modest (Restores kept) w.listeners ∧ P w.desk.work := by
  induction h with
  | new hd =>
    obtain ⟨first, rest, -, hwork⟩ := work_of_new hd
    exact ⟨modest_new _ _, hwork ▸ hnew first _⟩
  | enter _ ih => exact ih
  | perform _ hop ih =>
    obtain ⟨hlisteners, hwork, -⟩ := perform_keeps hbecomes ih.1 hop ih.2
    exact ⟨hlisteners ▸ ih.1, hwork⟩
  | @stir w _ _ hv ih =>
    cases hv with
    | @fire id alarm a _ _ =>
      obtain ⟨hlisteners, hwork, -⟩ :=
        fire_keeps (w := w.withAgenda a) hbecomes ih.1 ih.2 alarm
      exact ⟨hlisteners ▸ ih.1, hwork⟩
    | pass _ _ => exact ih
  | subscribe _ _ hl ih => exact ⟨modest_subscribe ih.1 hl, ih.2⟩
  | unsubscribe _ hv ih =>
    obtain ⟨hlisteners, hdesk⟩ := modest_unsubscribe hv ih.1
    exact ⟨hlisteners, hdesk ▸ ih.2⟩

theorem Reachable.arises {may : Operation → Prop} (h : Reachable c may w) :
    Arises c (Work.Fits c) (Reaction.Asking may) w := by
  refine @Reachable.rec c may (fun w _ => Arises c (Work.Fits c) (Reaction.Asking may) w)
    (fun op _ => Restores (Work.Fits c) op) ?new ?perform ?fire ?pass ?subscribe ?unsubscribe
    ?plain ?saved ?taken w h
  case new => exact fun hd => .new hd
  case perform => exact fun _ _ hw hop => .perform hw hop
  case fire => exact fun _ halarms hnext hw => .stir hw (.fire halarms hnext)
  case pass => exact fun _ halarms hnext hw => .stir hw (.pass halarms hnext)
  case subscribe =>
    refine fun _ hmay _ hw hl => .subscribe hw (fun d r hr => ?_) hl
    cases r with
    | perform op => exact hmay op ⟨d, hr⟩
    | _ => trivial
  case unsubscribe => exact fun _ hv hw => .unsubscribe hw hv
  case plain => exact fun hop s hs => absurd hs (hop s)
  case saved =>
    rintro json s hjson _ ⟨⟩
    exact Work.fits_of_ofJson hjson
  case taken =>
    rintro w hw - _ ⟨⟩
    exact (hw.invariant (invariant_bounded c)).1 ▸ hw.bounded.fits_session

structure Orderly (c : Catalog) (only : Prop) (asked : Host → Reaction → Prop) (w : Workbench) :
    Prop where
  listeners : Reacting (asked w.host) w.listeners
  restores : Modest (Restores (Work.Fits c)) w.listeners
  catalog : w.desk.work.catalog = c
  bounded : w.desk.work.Bounded
  inStep : w.desk.InStep only

theorem bounded_becomes (u v : Work) (hu : u.catalog = c ∧ u.Bounded)
    (huv : Work.Becomes (Work.Fits c) u v) : v.catalog = c ∧ v.Bounded :=
  ⟨huv.catalog.trans hu.1, hu.2.becomes (fun _ hs => hu.1.symm ▸ hs) huv⟩

theorem Orderly.modest (h : Orderly c only asked w) :
    Modest (fun op => asked w.host (.perform op)) w.listeners := h.listeners.modest fun _ hop => hop

theorem Orderly.note (h : Orderly c only asked w) (j : Journal) :
    Orderly c only asked { w with desk := { w.desk with journal := j } } :=
  ⟨h.listeners, h.restores, h.catalog, h.bounded, h.inStep.still rfl rfl⟩

theorem inStep_new {settings : Settings} {store : Option (Path × Time × Int)} {disk : Tree}
    {loop : Bool} {d : Desk}
    (h : Desk.new settings c (store.map fun s => Keeper.new s.1 s.2.1 s.2.2) disk loop = .ok d) :
    d.InStep only := by
  unfold Desk.new at h
  split at h
  · cases h
  · split at h
    · cases h
    · obtain rfl := Except.ok.inj h
      refine Desk.inStep_of_idle ⟨Pacer.holds_new only Alarm.tick _, ?_, Pacer.coherent_new _⟩ rfl
        rfl
      cases store <;> exact Agenda.sole_empty _

theorem Orderly.perform (h : Orderly c only asked w) {op : Operation}
    (hop : Restores (Work.Fits c) op) : Orderly c only asked (w.perform op).1 := by
  obtain ⟨hlisteners, ⟨hcatalog, hbounded⟩, hhost⟩ :=
    perform_keeps bounded_becomes h.restores hop ⟨h.catalog, h.bounded⟩
  exact ⟨hlisteners ▸ hhost ▸ h.listeners, hlisteners ▸ h.restores, hcatalog, hbounded,
    inStep_perform h.inStep op⟩

theorem Orderly.unfailing (h : Orderly c only asked w)
    (hasked : ∀ r, asked w.host r → r.Harmless w.host) : w.Unfailing :=
  unfailing_of_harmless fun l hl d r hr => hasked r (h.listeners l hl d r hr)

theorem Orderly.stir (h : Orderly c only asked w)
    (hasked : only → ∀ host r, asked host r → r.Harmless host) (hv : Stirs w v) :
    Orderly c only asked v := by
  cases hv with
  | @fire id alarm a halarms hnext =>
    obtain ⟨hlisteners, ⟨hcatalog, hbounded⟩, hhost⟩ :=
      fire_keeps (w := w.withAgenda a) bounded_becomes h.restores ⟨h.catalog, h.bounded⟩ alarm
    refine ⟨hlisteners ▸ hhost ▸ h.listeners, hlisteners ▸ h.restores, hcatalog, hbounded,
      inStep_fire h.inStep h.modest (fun ho op hop => (hasked ho _ _ hop).elim) (fun ho => ?_)
        h.bounded halarms hnext⟩
    exact h.unfailing (hasked ho _) _ w.flagged _
  | pass halarms hnext =>
    exact ⟨h.listeners, h.restores, h.catalog, h.bounded, inStep_pass h.inStep halarms hnext⟩

theorem reacting_subscribe {asked : Reaction → Prop} {l : Listener}
    (hls : Reacting asked w.listeners) (hl : ∀ d, ∀ r ∈ l.react d, asked r) :
    Reacting asked (w.subscribe l).listeners := by
  intro k hk
  rcases List.mem_append.1 hk with hk | hk
  · exact hls k hk
  · obtain rfl := List.mem_singleton.1 hk
    exact hl

theorem Arises.orderly (h : Arises c (Work.Fits c) asked w)
    (hasked : only → ∀ host r, asked host r → r.Harmless host) : Orderly c only asked w := by
  induction h with
  | @new settings _ _ _ _ _ hd =>
    obtain ⟨first, rest, hc, hwork⟩ := work_of_new hd
    refine ⟨fun l hl => absurd hl List.not_mem_nil, modest_new _ _, ?_, ?_, inStep_new hd⟩
    · rw [desk_new, hwork]
    · rw [desk_new, hwork]
      exact (invariant_bounded c).new settings hc
  | enter _ ih =>
    exact ⟨ih.listeners, ih.restores, ih.catalog, ih.bounded, ih.inStep.still rfl rfl⟩
  | perform _ hop ih => exact ih.perform hop
  | stir _ hv ih => exact ih.stir hasked hv
  | subscribe _ hl hrestores ih =>
    exact ⟨reacting_subscribe ih.listeners hl, modest_subscribe ih.restores hrestores, ih.catalog,
      ih.bounded, ih.inStep⟩
  | unsubscribe _ hv ih =>
    obtain ⟨hls, -⟩ := modest_unsubscribe hv ih.restores
    obtain rfl := unsubscribe?_cases hv
    exact ⟨fun l hl => ih.listeners l (List.mem_of_mem_eraseP hl), hls, ih.catalog, ih.bounded,
      ih.inStep⟩

theorem Arises.inStep {kept : Session → Prop} (h : Arises c kept asked w) :
    w.desk.InStep False := by
  induction h with
  | new hd => exact inStep_new hd
  | enter _ ih => exact ih.still rfl rfl
  | @perform w op _ _ ih => exact inStep_perform ih op
  | stir _ hv ih =>
    cases hv with
    | @fire id alarm a halarms hnext =>
      cases alarm with
      | tick => exact inStep_tick_of_any ih halarms hnext
      | keeper alarm => exact inStep_answerKeeper ih halarms hnext
    | pass halarms hnext => exact inStep_pass ih halarms hnext
  | subscribe _ _ _ ih => exact ih
  | unsubscribe _ hv ih =>
    obtain rfl := unsubscribe?_cases hv
    exact ih

theorem Arises.orderly_of_any (h : Arises c (Work.Fits c) asked w) : Orderly c False asked w :=
  h.orderly fun hfalse => hfalse.elim

theorem Arises.orderly_of_harmless (h : Arises c (Work.Fits c) Reaction.Harmless w) :
    Orderly c True Reaction.Harmless w := h.orderly fun _ _ _ hr => hr

end Workbench

end TapeLab
