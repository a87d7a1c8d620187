import TapeLab.Desk

/-!
The operations of a desk as data, and what each of them answers.
-/

namespace TapeLab

inductive Operation
  | step
  | run
  | pause
  | undo
  | reset
  | loadChallenge (index : Int)
  | useRules (rules : RuleTable)
  | loadTape (cells : List Symbol) (head : Int)
  | setSpeed (milliseconds : Int)
  | addRule
  | updateRule (index : Int) (field value : String)
  | deleteRule (index : Int)
  | editCell (index : Int) (value : String)
  | addCell
  | removeCell
  | restore (session : Session)
  deriving DecidableEq, Repr

inductive Answer
  | done
  | flag (b : Bool)
  | number (n : Nat)
  deriving DecidableEq, Repr

def Outcome.map {α β : Type} (f : α → β) (o : Outcome α) : Outcome β :=
  ⟨o.desk, o.answer.map f, o.change⟩

def Operation.apply (d : Desk) : Operation → Outcome Answer
  | step => d.step.map .flag
  | run => d.run.map .flag
  | pause => d.pause.map fun _ => .done
  | undo => d.undo.map .flag
  | reset => d.reset.map fun _ => .done
  | loadChallenge index => (d.loadChallenge index).map fun _ => .done
  | useRules rules => (d.useRules rules).map fun _ => .done
  | loadTape cells head => (d.loadTape cells head).map fun _ => .done
  | setSpeed milliseconds => (d.setSpeed milliseconds).map fun _ => .done
  | addRule => d.addRule.map .number
  | updateRule index field value => (d.updateRule index field value).map .flag
  | deleteRule index => (d.deleteRule index).map .flag
  | editCell index value => (d.editCell index value).map .flag
  | addCell => d.addCell.map fun _ => .done
  | removeCell => d.removeCell.map .flag
  | restore session => (d.restore session).map fun _ => .done

end TapeLab
