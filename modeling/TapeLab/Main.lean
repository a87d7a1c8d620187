import TapeLab.CommandLine
import TapeLab.Console.Plain

/-!
The program at a terminal: files are read before the command is carried out and written after it,
and typed lines are taken as they come. A line counts as typed at once.
-/

namespace TapeLab.Terminal

open CommandLine

def patience : Nat := 100000000

def fetch (path : Path) (disk : Tree) : IO Tree := do
  if path.hasNull then return disk
  else if ← ((← IO.currentDir) / path.toText).isDir then
    return (disk.makeFolders path).1
  else
    try
      let bytes ← IO.FS.readBinFile path.toText
      return (disk.write path bytes.toList).1
    catch _ => return disk

def fetchAll (paths : List Path) (disk : Tree) : IO Tree :=
  paths.foldlM (fun disk path => fetch path disk) disk

def writeBack (path : Path) (before after : Tree) : IO Unit :=
  match (before.read path).toOption, (after.read path).toOption with
  | some _, none => IO.FS.removeFile path.toText
  | old, some bytes =>
    if old = some bytes then return
    else do
      IO.FS.createDirAll path.parent.toText
      IO.FS.writeBinFile path.toText ⟨bytes.toArray⟩
  | none, none => return

def showEntries (verbose : Bool) (entries : List Entry) : IO Unit :=
  for e in entries do
    if isVisible verbose e then
      if let some line := e.toText? then IO.println line

def showFault : Exit → IO Unit
  | .fault cause => IO.eprintln cause.message
  | .usage => IO.eprintln "usage: [--config file] [--verbose] challenges | rules | run | play"
  | _ => return

def news (before after : Play) : List Entry :=
  (after.bench.desk.journal.take
    (after.bench.desk.journal.length - before.bench.desk.journal.length)).reverse

partial def converse (verbose : Bool) (input : IO.FS.Stream) (p : Play) : IO Play := do
  match p.stage with
  | .over _ => return p
  | .prompt => IO.print "tm: "
  | .watching => pure ()
  (← IO.getStdout).flush
  let line ← input.getLine
  let next := p.read patience (if line.isEmpty then none else some ⟨none, line⟩)
  showEntries verbose (news p next)
  converse verbose input next

def finish (verbose : Bool) : Progress → IO Result
  | .ended r => do
    showEntries verbose r.journal.reverse
    return r
  | .playing p => do
    showEntries verbose p.bench.desk.journal.reverse
    let p ← converse verbose (← IO.getStdin) p
    return .ofBench (exitOf p.ending) p.bench

def carryOut (i : Invocation) (home : Path) : IO Exit := do
  let disk ← fetchAll (i.files ⟨home, .empty, .plain⟩) .empty
  let paths := i.files ⟨home, disk, .plain⟩
  let disk ← fetchAll paths disk
  let r ← finish i.verbose (invoke i ⟨home, disk, .plain⟩)
  for path in paths do writeBack path disk r.disk
  return r.exit

def start (args : List String) : IO Exit :=
  match Invocation.ofArgs args with
  | .error refusal => return (Result.ofRefusal .empty refusal).exit
  | .ok i => do carryOut i (.ofText ((← IO.getEnv "HOME").getD "."))

end TapeLab.Terminal

def main (args : List String) : IO UInt32 := do
  let exit ← TapeLab.Terminal.start args
  TapeLab.Terminal.showFault exit
  return (exit.code.getD 1).toUInt32
