import SchemaDrift.CommandLine.Run

/-!
The program: takes the arguments, the variables and the files that they name, and writes what comes
of them.
-/

namespace SchemaDrift.CommandLine

/-- Takes over what stands at a path. Permission bits cannot be told here, and what cannot be read
is as if it were not there. -/
partial def takeOver (fs : FileSystem) (path : String) (entry : IO.FS.DirEntry) :
    IO FileSystem := do
  let place := entry.path
  try
    if ← place.isDir then
      (← place.readDir).foldlM
        (fun fs e => takeOver fs (path ++ "/" ++ e.fileName) e) (fs.addDirectory path)
    else if ← place.pathExists then
      return fs.addFile path (← IO.FS.readBinFile place) 0o600
    else return fs
  catch _ => return fs

def takeOverAll (paths : List String) : IO FileSystem := do
  let here ← IO.currentDir
  let fs := FileSystem.empty (FileSystem.names (FileSystem.parts here.toString))
  (paths.filter (· ≠ "")).foldlM (fun fs path => takeOver fs path ⟨here, path⟩) fs

def environment : IO Environment :=
  variableNames.filterMapM (fun name => do return (← IO.getEnv name).map (name, ·))

end SchemaDrift.CommandLine

open SchemaDrift.CommandLine in
def main (args : List String) : IO UInt32 := do
  let paths := match Request.ofArguments args with
    | .ok request => request.paths
    | .error _ => []
  let outcome := run (← takeOverAll paths) (← environment) args
  for notice in outcome.notices do IO.eprintln ("WARN: " ++ notice)
  IO.print outcome.outputText
  IO.eprint outcome.errorText
  return outcome.exitCode.toUInt32
