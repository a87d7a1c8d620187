import TapeLab.CommandLine.Request
import TapeLab.Play
import TapeLab.RuleTable.File
import TapeLab.Settings.File
import TapeLab.Trial

/-!
The command line: what the program does with its arguments, the files it finds and the lines that
are typed. The answer tells how the program ends, what it has written to the console and the log,
and what is on the disk then.
-/

namespace TapeLab.CommandLine

inductive ProgramFault
  | settings (cause : SettingsError)
  | homeless (cause : Path.HomeError)
  | desk (cause : Fault)
  | command (cause : CommandError)
  deriving DecidableEq, Repr

def ProgramFault.message : ProgramFault → String
  | settings cause => cause.message
  | homeless cause => cause.message
  | desk cause => cause.message
  | command cause => cause.message

inductive Exit
  | success
  /-- The program has told what is wrong, or the run has not led to its goal. -/
  | failure
  | usage
  | fault (cause : ProgramFault)
  | endless
  deriving DecidableEq, Repr

def Exit.code : Exit → Option Nat
  | success => some 0
  | failure | fault _ => some 1
  | usage => some 2
  | endless => none

structure Result where
  exit : Exit
  journal : Journal
  disk : Tree

/-- What the program finds when it is started. -/
structure Environment where
  home : Path
  disk : Tree
  host : Host

/-- Only warnings are logged unless the program is verbose. -/
def isVisible (verbose : Bool) : Entry → Bool
  | .logged l => verbose || l.level == .warning
  | _ => true

namespace Result

def silent (exit : Exit) (disk : Tree) : Result := ⟨exit, [], disk⟩

def shown (host : Host) (exit : Exit) (outputs : List Output) (disk : Tree) : Result :=
  let taken := outputs.takeWhile host.Takes
  ⟨match (outputs.drop taken.length).head?.bind host.refusal with
    | none => exit
    | some message => .fault (.desk (.markup message)),
    taken.reverse.map .shown, disk⟩

def ofBench (exit : Exit) (w : Workbench) : Result := ⟨exit, w.desk.journal, w.desk.disk⟩

def andThen (r : Command.Result) (next : Workbench → Result) : Result :=
  match r with
  | (w, none) => next w
  | (w, some e) => ofBench (.fault (.command e)) w

def ofRefusal (disk : Tree) : Refusal → Result
  | .help => silent .success disk
  | .usage => silent .usage disk

def ofSettingsError (env : Environment) (e : SettingsError) : Result :=
  if e.isReported then shown env.host .failure [.line s!"[error]{Text.escape e.message}"] env.disk
  else silent (.fault (.settings e)) env.disk

def entries (verbose : Bool) (r : Result) : List Entry :=
  (r.journal.filter (isVisible verbose)).reverse

end Result

def noRulesLine : String := "[warning]The rule file does not contain any rules."

def neverHaltsLine : String := s!"[warning]No rule ever moves to the '{haltState}' state."

def checkTable (t : RuleTable) : List Output :=
  if t.rules.isEmpty then [.line noRulesLine]
  else
    .table (t.listing none) :: .line t.graph :: t.conflictLines ++
      (if haltState ∈ t.states then [] else [.line neverHaltsLine])

def checkRules (path : Path) (env : Environment) : Result :=
  match RuleTable.load env.disk path with
  | .error e => .shown env.host .failure [.line e.markup] env.disk
  | .ok t => .shown env.host .success (checkTable t) env.disk

/-- The cells that a typed tape stands for: spaces and underscores are blank. -/
def readCells (tape : String) : List Symbol :=
  tape.toList.map fun c => if c = ' ' ∨ c = '_' then blank else String.singleton c

namespace RunRequest

def overrides (r : RunRequest) : List (SettingKey × Int) :=
  (.speed, r.speed) :: (r.maxSteps.map fun n => (SettingKey.maxSteps, n)).toList

def pick (index : Int) : Except String Challenge :=
  let challenges := Catalog.standard.challenges
  match (if 0 ≤ index then challenges[index.toNat]? else none) with
  | some c => .ok c
  | none => .error
    s!"[error]There is no challenge number {index}, pick one between 0 and {challenges.length - 1}."

def placeRules (r : RunRequest) (w : Workbench) : Except RuleFileError Workbench :=
  match r.rules with
  | none => .ok w
  | some path => (RuleTable.load w.desk.disk path).map fun t => (w.perform (.useRules t)).1

def placeTape (r : RunRequest) (c : Challenge) (w : Workbench) : Workbench :=
  if r.tape.isSome || r.head.isSome then
    (w.perform (.loadTape ((r.tape.map readCells).getD c.cells) (r.head.getD c.head))).1
  else w

def headerLines (r : RunRequest) (c : Challenge) (w : Workbench) : List Output :=
  w.desk.machine.rules.conflictLines ++ [.line s!"[heading]Running '{c.name}'"] ++
    (if r.trace then [.line s!"    0    {w.desk.machine.snapshot.markup}"] else [])

/-- Tells how a trial has ended. It is a success if the challenge is met or asks for nothing. -/
def report (c : Challenge) (maxSteps : Nat) (limited : Bool) (w : Workbench) : Result :=
  let limit := s!"[warning]The machine did not halt within {maxSteps} steps."
  .andThen (if limited then Command.printLine limit w else Command.silently w) fun w =>
    match w.desk.statusLine with
    | .error f => .ofBench (.fault (.desk f)) w
    | .ok line =>
      .andThen (Command.print (.line line :: w.desk.machine.messageLines) w) fun w =>
        let met := !limited && (w.desk.machine.won || c.sandbox)
        .ofBench (if met then .success else .failure) w

def conclude (c : Challenge) (maxSteps : Nat) : Workbench × Trial.Result → Result
  | (w, .over limited) => report c maxSteps limited w
  | (w, .fault f) => .ofBench (.fault (.desk f)) w
  | (w, .endless) => .ofBench .endless w

def perform (r : RunRequest) (maxSteps : Nat) (w : Workbench) : Result :=
  match pick r.challenge with
  | .error line => .andThen (Command.printLine line w) (.ofBench .failure)
  | .ok c =>
    let w := (w.perform (.loadChallenge r.challenge)).1
    match r.placeRules w with
    | .error e => .andThen (Command.printLine e.markup w) (.ofBench .failure)
    | .ok w =>
      let w := r.placeTape c w
      .andThen (Command.print (r.headerLines c w) w) fun w =>
        conclude c maxSteps (Trial.run maxSteps r.trace w)

end RunRequest

def run (settings : Settings) (r : RunRequest) (env : Environment) : Result :=
  match settings.override r.overrides with
  | .error e => .ofSettingsError env e
  | .ok settings =>
    match Desk.new settings .standard none env.disk true with
    | .error f => .silent (.fault (.desk f)) env.disk
    | .ok d => r.perform settings.maxSteps (.new env.host d)

def keeperDelay (seconds : Binary64) : Time :=
  match seconds.toRat? with
  | some s => .finite (s * 1000)
  | none => if seconds.isInfinite then .never else .unclear

def resume (d : Desk) : Except Fault Desk :=
  match d.loadSaved with
  | (d, none) => .ok d
  | (d, some s) =>
    let o := d.restore s
    o.answer.map fun _ => o.desk

def exitOf : Play.Ending → Exit
  | .quit => .success
  | .endOfInput => .failure
  | .fault cause => .fault (.command cause)

def playDesk (settings : Settings) (fresh : Bool) (path : Path) (disk : Tree) : Except Fault Desk :=
  let keeper :=
    Keeper.new path (keeperDelay settings.saveDelay) Catalog.standard.challenges.length
  do
    let d ← Desk.new settings .standard (some keeper) disk true
    if fresh then return d else resume d

inductive Progress
  | ended (r : Result)
  | playing (p : Play)

/-- The result after all typed lines. At most `patience` timers fire while one line is waited
for. -/
def Progress.finish (patience : Nat) (typed : List TypedLine) : Progress → Result
  | ended r => r
  | playing p =>
    let p := p.readAll patience typed
    .ofBench (exitOf p.ending) p.bench

def play (settings : Settings) (fresh : Bool) (env : Environment) : Progress :=
  match settings.sessionPath env.home with
  | .error e => .ended (.silent (.fault (.homeless e)) env.disk)
  | .ok path =>
    match playDesk settings fresh path env.disk with
    | .error f => .ended (.silent (.fault (.desk f)) env.disk)
    | .ok d => .playing (Play.start (.new env.host d))

def perform (settings : Settings) (env : Environment) : Request → Progress
  | .challenges => .ended (.shown env.host .success [.table Catalog.standard.listing] env.disk)
  | .rules path => .ended (checkRules path env)
  | .run r => .ended (run settings r env)
  | .play fresh => play settings fresh env

def invoke (i : Invocation) (env : Environment) : Progress :=
  match Settings.load env.disk i.config with
  | .error e => .ended (.ofSettingsError env e)
  | .ok settings =>
    match Request.ofArgs i.command i.args with
    | .error refusal => .ended (.ofRefusal env.disk refusal)
    | .ok request => perform settings env request

def Request.files (settings : Settings) (home : Path) : Request → List Path
  | .challenges => []
  | .rules path => [path]
  | .run r => r.rules.toList
  | .play _ => (settings.sessionPath home).toOption.toList

def Invocation.files (i : Invocation) (env : Environment) : List Path :=
  i.config.getD Settings.defaultFile ::
    match Settings.load env.disk i.config, Request.ofArgs i.command i.args with
    | .ok settings, .ok request => request.files settings env.home
    | _, _ => []

structure Report where
  exit : Exit
  entries : List Entry
  disk : Tree

/-- The whole program, from its arguments to its end. -/
def report (args : List String) (env : Environment) (patience : Nat) (typed : List TypedLine) :
    Report :=
  match Invocation.ofArgs args with
  | .error refusal => ⟨(Result.ofRefusal env.disk refusal).exit, [], env.disk⟩
  | .ok i =>
    let r := (invoke i env).finish patience typed
    ⟨r.exit, r.entries i.verbose, r.disk⟩

end TapeLab.CommandLine
