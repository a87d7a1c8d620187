import TapeLab.RuleTable
import TapeLab.Tape
import TapeLab.Snapshot
import TapeLab.History

/-!
Machines. `step` applies the first rule that matches, or halts where none does; `undo` goes back to
the snapshot taken before the last step.
-/

namespace TapeLab

structure Machine where
  rules : RuleTable
  tape : Tape
  head : Int
  state : String
  steps : Int
  history : History Snapshot
  halted : Bool
  won : Bool
  message : String
  lastStep : String
  active : Option Rule
  /-- The cell that the last step wrote, where it is on the tape after the step. -/
  changed : Option Int
  deriving DecidableEq, Repr

namespace Machine

def start (rules : RuleTable) (tape : Tape) (head : Int) (state : String) (steps : Int)
    (bounds : History.Bounds) : Machine where
  rules := rules
  tape := tape
  head := tape.clamp head
  state := state
  steps := steps
  history := .empty bounds
  halted := false
  won := false
  message := ""
  lastStep := ""
  active := none
  changed := none

def snapshot (m : Machine) : Snapshot := ⟨m.tape.cells, m.head, m.state, m.steps⟩

def symbol (m : Machine) : Symbol := m.tape.read m.head

/-- The machine without the marks of its last step. -/
def unmarked (m : Machine) : Machine := { m with active := none, changed := none }

def miss (m : Machine) : Machine :=
  { m with
    halted := true
    message := s!"No rule for state \"{m.state}\" reading \"{label m.symbol}\""
    lastStep := s!"No rule for ({m.state}, {label m.symbol}), halted" }

def moveOn (m : Machine) (r : Rule) (tape : Tape) : Machine :=
  let target := m.head + r.move.offset
  let settled := tape.settle target
  { m with
    tape := settled.1
    head := settled.2
    state := r.next
    steps := m.steps + 1
    message := ""
    lastStep := s!"Rule: {r.describe}"
    active := some r
    changed := some (if target < 0 then m.head + 1 else m.head)
    halted := m.halted || r.next == haltState }

/-- One step. It answers whether the machine may go on, or the fault of a head that is off the
tape. -/
def step (m : Machine) : Machine × Except TapeError Bool :=
  let m := m.unmarked
  if m.halted then (m, .ok false)
  else if m.state = haltState then ({ m with halted := true }, .ok false)
  else match m.rules.lookup m.state m.symbol with
    | none => (m.miss, .ok false)
    | some r =>
      let m := { m with history := m.history.push m.snapshot }
      match m.tape.write m.head r.write with
      | .error e => (m, .error e)
      | .ok tape => (m.moveOn r tape, .ok (r.next != haltState))

def undo? (m : Machine) : Option Machine :=
  m.history.pop?.map fun p =>
    { m with
      tape := .ofCells p.1.cells
      head := p.1.head
      state := p.1.state
      steps := p.1.steps
      history := p.2
      halted := false
      won := false
      message := ""
      lastStep := ""
      active := none
      changed := none }

def load (m : Machine) (cells : List Symbol) (head : Int) : Machine :=
  let tape := Tape.ofCells cells
  { m with
    tape := tape
    head := tape.clamp head
    state := initialState
    steps := 0
    history := m.history.clear
    halted := false
    won := false
    message := ""
    lastStep := ""
    active := none
    changed := none }

end Machine

end TapeLab
