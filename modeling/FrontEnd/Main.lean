/-
This file is the command line program.
-/

import FrontEnd.CommandLine

namespace FrontEnd.CommandLine

/-- The contents of the files that can be read. -/
def readFiles (paths : List String) : IO (List (String × ByteArray)) := do
  let mut contents := []
  for path in paths do
    try
      contents := (path, ← IO.FS.readBinFile path) :: contents
    catch _ =>
      pure ()
  return contents

/-- Files are read only when the arguments make sense, and standard input only without files. -/
def readInputs (arguments : List String) : IO Inputs := do
  match plan arguments with
  | .process options =>
      let contents ← readFiles options.paths
      let standard ←
        if options.paths.isEmpty then (← IO.getStdin).readBinToEnd else pure ByteArray.empty
      return ⟨standard, fun path => contents.lookup path⟩
  | .help | .refuse _ => return ⟨ByteArray.empty, fun _ => none⟩

end FrontEnd.CommandLine

def main (arguments : List String) : IO UInt32 := do
  let inputs ← FrontEnd.CommandLine.readInputs arguments
  let answer := FrontEnd.CommandLine.run arguments inputs
  IO.print answer.output
  IO.eprint answer.errors
  return answer.status.toUInt32
