import TapeLab.Clockwork
import TapeLab.Proofs.Agenda

/-!
What holds however long someone waits. Every call that is carried out meanwhile is an alarm that
goes off, or none.
-/

namespace TapeLab.Clockwork

variable {σ α : Type} (c : Clockwork σ α) {P : σ → Prop} {done : σ → Bool}

theorem goUntil_keeps
    (pass : ∀ s a, P s → (c.agenda s).alarms.Perm a.alarms → a.next = (c.agenda s).next →
      P (c.withAgenda a s))
    (fire : ∀ s id x a, P s → (c.agenda s).alarms.Perm ((id, x) :: a.alarms) →
      a.next = (c.agenda s).next → P (c.fire x (c.withAgenda a s)))
    (patience : Nat) {s : σ} (h : P s) : P (c.goUntil done patience s) := by
  induction patience generalizing s with
  | zero => exact h
  | succ patience ih =>
    rw [goUntil]
    split
    · exact h
    · split
      · exact h
      · next a hadvance =>
        obtain ⟨halarms, hnext⟩ := Agenda.advance?_pass hadvance
        exact ih (pass s a h halarms hnext)
      · next x a hadvance =>
        obtain ⟨id, halarms, hnext⟩ := Agenda.advance?_fire hadvance
        exact ih (fire s id x a h halarms hnext)

theorem goUntil_of_done {s : σ} (h : done s = true) (patience : Nat) :
    c.goUntil done patience s = s := by
  cases patience with
  | zero => rfl
  | succ patience => rw [goUntil, if_pos h]

def respond : Option α × Agenda α → σ → σ
  | (none, a), s => c.withAgenda a s
  | (some x, a), s => c.fire x (c.withAgenda a s)

theorem goUntil_of_advance {s : σ} {r : Option α × Agenda α} (hdone : done s = false)
    (hadvance : (c.agenda s).advance? = some r) (patience : Nat) :
    c.goUntil done (patience + 1) s = c.goUntil done patience (c.respond r s) := by
  rw [goUntil, hdone, hadvance]
  obtain ⟨answer, a⟩ := r
  cases answer <;> rfl

end TapeLab.Clockwork
