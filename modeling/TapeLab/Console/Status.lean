import TapeLab.Desk
import TapeLab.Console.Listing

/-!
What is shown of a machine at a desk: its tape, a status line, its message, and the log of its
steps.
-/

namespace TapeLab

namespace Machine

def messageLines (m : Machine) : List Output :=
  if m.message = "" then []
  else
    let style := if m.won then "success" else if m.halted then "error" else "info"
    [.line s!"[{style}]{Text.escape m.message}[/]"]

def executionLog (m : Machine) (count : Int) : String :=
  let last :=
    if m.lastStep = "" then [] else [s!"[attention]#{m.steps}: {Text.escape m.lastStep}[/]"]
  "\n".intercalate
    (last ++ (m.history.recent count).map fun s => s!"[info]{Text.escape s.describe}[/]")

def stepText (n : Int) : String :=
  let digits := toString n
  String.ofList (List.replicate (5 - digits.length) ' ') ++ digits

def traceLine (m : Machine) : Output := .line s!"{stepText m.steps}    {m.snapshot.markup}"

end Machine

namespace Desk

def flag (d : Desk) : String :=
  if d.machine.won then "[success]WON[/]"
  else if d.machine.halted then "[warning]HALTED[/]"
  else if d.running then "[attention]RUNNING[/]"
  else "[info]READY[/]"

def statusLine (d : Desk) : Except Fault String := do
  let speed ← d.speed
  return s!"step {d.machine.steps}  state [cyan]{Text.escape d.machine.state}[/]  " ++
    s!"head {d.machine.head}  speed {speed}ms  {d.flag}"

/-- Outputs, and the fault that kept further ones from being made. -/
structure View where
  outputs : List Output
  fault : Option Fault

def machineView (d : Desk) : View :=
  let tape := Output.line d.machine.snapshot.markup
  match d.statusLine with
  | .error f => ⟨[tape], some f⟩
  | .ok line => ⟨tape :: .line line :: d.machine.messageLines, none⟩

def challengeView (d : Desk) : View :=
  match d.challenge with
  | .error f => ⟨[], some f⟩
  | .ok c =>
    let machine := d.machineView
    { machine with
      outputs :=
        .line s!"[heading]{d.index}: {c.name}[/] {Text.escape c.description}" ::
        .line s!"[info]Hint: {Text.escape c.hints}" ::
        .table (d.machine.rules.listing none) :: machine.outputs }

end Desk

end TapeLab
