import ClassOutline.Cli.Session

/-!
# The command line program

The outer layer: it takes the arguments, the standard input, the environment and the files that the
call is about from the system, leaves the rest to `Cli.run`, and carries out what that says. Object
stores of repositories are not opened here, so a scan of a commit finds no repository.
-/

namespace ClassOutline.Main

/-- The text of some bytes, as far as the system can take it. -/
def systemText (s : Bytes) : String := (String.fromUTF8? (ByteArray.mk s.toUtf8.toArray)).getD ""

/-- The bytes of a text from the system. -/
def systemBytes (s : String) : Bytes := s.toUTF8.toList

/-- An entry of a directory with everything below it. What can be neither read nor followed is left
out. -/
partial def snapshot (e : IO.FS.DirEntry) : IO (Option (Bytes × Entry)) := do
  let name := systemBytes e.fileName
  match (← e.path.symlinkMetadata).type with
  | .file => return some (name, .file (← IO.FS.readBinFile e.path).toList)
  | .symlink =>
    try return some (name, .link (systemBytes (← IO.FS.realPath e.path).toString))
    catch _ => return none
  | .dir =>
    let children ← (← e.path.readDir).filterMapM snapshot
    return some (name, .dir (children.toList.foldr (fun c l => Entry.withChild c.1 c.2 l) []))
  | _ => return some (name, .special)

/-- The tree of the file or directory at a path, which is all that a call sees of the system. -/
def treeAt (path : Bytes) : IO Entry := do
  let place := Path.parts path
  let parents := Entry.empty.makeDirs (Path.dir path)
  try
    let real ← IO.FS.realPath (systemText path)
    match (← real.metadata).type with
    | .dir =>
      let children ← (← real.readDir).filterMapM snapshot
      return parents.put place
        (.dir (children.toList.foldr (fun c l => Entry.withChild c.1 c.2 l) []))
    | .file => return parents.put place (.file (← IO.FS.readBinFile real).toList)
    | _ => return parents
  catch _ => return parents

/-- The variables that the program looks at. -/
def environment : IO Settings.Environment :=
  ["GIT_TOKEN", "GITHUB_TOKEN", "TMPDIR"].filterMapM fun name => do
    return (← IO.getEnv name).map fun value => (Bytes.ofString name, systemBytes value)

/-- The standard input to its end, or the reason why it could not be read. -/
partial def standardInput (stream : IO.FS.Stream) (read : ByteArray) : IO Cli.Input := do
  try
    let chunk ← stream.read 65536
    if chunk.isEmpty then return .ok read.toList else standardInput stream (read ++ chunk)
  catch e => return .error (systemBytes (toString e))

/-- The settings file of a directory written as a run left it. -/
def writeBack (h : Cli.Host) (dir : Bytes) : IO Unit := do
  let target := Path.join dir ProjectSettings.fileName
  match h.workspace.tree.read target with
  | .ok content => IO.FS.writeBinFile (systemText target) (ByteArray.mk content.toArray)
  | .error _ => return

/-- One run of the program on the system. -/
def runOnSystem (args : List Bytes) : IO UInt32 := do
  let cwd := systemBytes (← IO.currentDir).toString
  let call := (Cli.Call.ofArgs args).toOption
  let path := (call.bind Cli.Call.path?).map (Path.seenFrom cwd)
  let tree ← match path with
    | some path => treeAt path
    | none => pure Entry.empty
  let needsInput := match call with
    | some (.run .parse values) | some (.run .detect values) => values.text "file" [] == [0x2D]
    | _ => false
  let input ← if needsInput then standardInput (← IO.getStdin) .empty else pure (.ok [])
  let host : Cli.Host := { workspace := { tree }, cwd, environment := ← environment }
  let (outcome, after) := Cli.run host args input
  match call, path with
  | some (.run .init _), some dir => if outcome.error.isNone then writeBack after dir
  | _, _ => pure ()
  (← IO.getStdout).write (ByteArray.mk outcome.output.toArray)
  (← IO.getStderr).write (ByteArray.mk outcome.errorText.toArray)
  return outcome.exitCode.toUInt32

end ClassOutline.Main

def main (args : List String) : IO UInt32 :=
  ClassOutline.Main.runOnSystem (args.map ClassOutline.Main.systemBytes)
