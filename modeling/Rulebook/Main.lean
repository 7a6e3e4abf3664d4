import Rulebook.Command.Run

/-!
# The command line

Reads the directory where the command runs, and prints what the command finished with.
-/

namespace Rulebook

open Command

/-- Reads what a directory entry leads to, with everything below it. -/
partial def readEntry (e : IO.FS.DirEntry) : IO Tree := do
  if ← e.path.isDir then return .directory (← readAll (← e.path.readDir))
  else return .file (← IO.FS.readBinFile e.path)
where
  readAll (found : Array IO.FS.DirEntry) : IO (Entries Tree) :=
    found.foldlM (fun entries e => do
      return Entries.insert entries e.fileName (← readEntry e)) []

/-- Reads the current directory. -/
def readHere : IO Tree := do
  let found ← (← IO.currentDir).readDir
  return .directory (← readEntry.readAll found)

end Rulebook

def main (args : List String) : IO UInt32 := do
  let finished := Rulebook.Command.run args (← Rulebook.readHere)
  IO.print finished.stdout
  IO.eprint finished.stderr
  return finished.code.toUInt32
