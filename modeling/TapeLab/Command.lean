import TapeLab.Workbench
import TapeLab.Console.Status

/-!
Commands that are typed at the prompt. A command is a word with arguments; what is no command is
answered with the list of commands.
-/

namespace TapeLab

inductive CommandError
  | fault (cause : Fault)
  | numeral (cause : Text.NumeralError)
  /-- Rules cannot be edited by typed commands. -/
  | noFieldNames
  deriving DecidableEq, Repr

def CommandError.message : CommandError → String
  | fault cause => cause.message
  | numeral cause => cause.message
  | noFieldNames => "__value__"

namespace Command

def help : String := "\n".intercalate
  ["[heading]Commands[/]",
    "  s                      step once",
    "  r                      run until halted, press Enter to pause",
    "  u                      undo the last step",
    "  x                      reset the tape of the current challenge",
    "  c <n>                  load challenge number n",
    "  v <ms>                 set the delay between steps of a run",
    "  a                      add a rule",
    "  e <i> <field> <value>  edit a field (state, read, write, move, next_state) of rule i",
    "  d <i>                  delete rule i",
    "  t <i> <symbol>         write a symbol into tape cell i, nothing for blank",
    "  + / -                  add or remove a cell at the end of the tape",
    "  l                      list the challenges",
    "  g                      show the state graph",
    "  log                    show the execution log",
    "  q                      quit"]

/-- The word and the arguments of a typed line. An empty line is the empty command. -/
def split (line : String) : String × List String :=
  match (Text.words line.toList).map String.ofList with
  | [] => ("", [])
  | word :: args => (word, args)

abbrev Result := Attempt CommandError

def print (outputs : List Output) (w : Workbench) : Result :=
  (Workbench.inTurn Workbench.print outputs w).mapFault .fault

def printLine (markup : String) (w : Workbench) : Result := print [.line markup] w

def showView (v : Desk.View) (w : Workbench) : Result :=
  (print v.outputs w).andThen fun w => (w, v.fault.map .fault)

def showMachine (w : Workbench) : Result := showView w.desk.machineView w

def showRules (w : Workbench) : Result := print [.table (w.desk.machine.rules.listing none)] w

/-- Performs an operation, goes on with its answer unless it failed, and shows the machine. -/
def perform (op : Operation) (w : Workbench) (next : Answer → Workbench → Result) : Result :=
  match w.perform op with
  | (w, .error f) => (w, some (.fault f))
  | (w, .ok answer) => (next answer w).andThen showMachine

def silently (w : Workbench) : Result := (w, none)

def unlessDone (markup : String) (answer : Answer) (w : Workbench) : Result :=
  if answer = .flag false then printLine markup w else silently w

def withNumber (digits : String) (w : Workbench) (next : Int → Result) : Result :=
  match Text.readInt digits with
  | .error e => (w, some (.numeral e))
  | .ok n => next n

def isDigits (s : String) : Bool := Text.isDigits s.toList

def haltedLine : String := "[warning]The machine has halted, undo or reset it first."

def step (w : Workbench) : Result :=
  if w.desk.machine.halted then printLine haltedLine w
  else perform .step w fun _ w =>
    let last := w.desk.machine.lastStep
    if last = "" then silently w else printLine s!"[attention]{Text.escape last}" w

def unknown (w : Workbench) : Result := printLine help w

def loadChallenge (index : String) (w : Workbench) : Result :=
  withNumber index w fun n =>
    if n < w.desk.catalog.challenges.length then
      match w.perform (.loadChallenge n) with
      | (w, .error f) => (w, some (.fault f))
      | (w, .ok _) => showView w.desk.challengeView w
    else unknown w

def deleteRule (index : String) (w : Workbench) : Result :=
  withNumber index w fun n =>
    perform (.deleteRule n) w fun answer w =>
      (unlessDone s!"[warning]There is no rule {index}." answer w).andThen showRules

def editCell (index : String) (value : List String) (w : Workbench) : Result :=
  withNumber index w fun n =>
    perform (.editCell n (String.join value)) w
      (unlessDone "[warning]Tape cells are numbered from 0 and hold a single character.")

def showGraph (w : Workbench) : Result :=
  let rules := w.desk.machine.rules
  print [.line rules.graph, .line (rules.symbolsLine w.desk.machine.tape.cells)] w

def showLog (w : Workbench) : Result :=
  let log := w.desk.machine.executionLog 10
  printLine (if log = "" then "[info]Nothing has happened yet." else log) w

def handle (word : String) (args : List String) (w : Workbench) : Result :=
  match word, args with
  | "s", [] => step w
  | "u", [] => perform .undo w (unlessDone "[warning]There is nothing to undo.")
  | "x", [] => perform .reset w fun _ => silently
  | "c", [index] => if isDigits index then loadChallenge index w else unknown w
  | "v", [delay] =>
    if isDigits delay then
      withNumber delay w fun n => perform (.setSpeed n) w fun _ => silently
    else unknown w
  | "a", [] => perform .addRule w fun _ => showRules
  | "e", index :: _ :: _ => if isDigits index then (w, some .noFieldNames) else unknown w
  | "d", [index] => if isDigits index then deleteRule index w else unknown w
  | "t", index :: value => if isDigits index then editCell index value w else unknown w
  | "+", [] => perform .addCell w fun _ => silently
  | "-", [] => perform .removeCell w (unlessDone "[warning]The tape needs at least one cell.")
  | "l", [] => print [.table Catalog.standard.listing] w
  | "g", [] => showGraph w
  | "log", [] => showLog w
  | "", [] => silently w
  | _, _ => unknown w

end Command

end TapeLab
