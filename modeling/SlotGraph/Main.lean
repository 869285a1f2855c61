import SlotGraph.CommandLine.Run

/-!
# The program

The command line on the file system of the machine.
-/

namespace SlotGraph

def attempt {α : Type} (action : IO α) : IO (Option α) := do
  try
    return some (← action)
  catch _ =>
    return none

/-- The text of a file; empty for what can be opened but not read, as a directory. -/
def readFile? (path : String) : IO (Option String) := do
  match ← attempt (IO.FS.Handle.mk path .read) with
  | some handle => return some ((← attempt handle.readToEnd).getD "")
  | none => return none

def machineFiles : FileAccess IO :=
  { read := readFile?
    write := fun path text => return (← attempt (IO.FS.writeFile path text)).isSome
    makeDirectories := fun path => return (← attempt (IO.FS.createDirAll path)).isSome }

end SlotGraph

def main (args : List String) : IO UInt32 := do
  let outcome ← SlotGraph.Run.outcome SlotGraph.machineFiles args
  IO.print outcome.output
  IO.eprint outcome.errors
  return UInt32.ofNat outcome.exitCode
